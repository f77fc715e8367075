import AliceNet.Bridge.BTokenAccounting

/-! Calls that only buy. -/

namespace AliceNet.Bridge.BToken

open Outcome Sigmoid Word

def getLatestEthToMintBTokens (s : Storage) (numBTK : ℕ) : Except Revert ℕ :=
  getEthToMintBTokens s.totalSupply numBTK

inductive Call.Mints : Call → Prop
  | mint (minBTK : ℕ) : Mints (.mint minBTK)
  | mintTo (to_ : Address) (minBTK : ℕ) : Mints (.mintTo to_ minBTK)

inductive Call.Buys : Call → Prop
  | mints (mints : Mints call) : Buys call
  | mintDeposit (accountType : UInt8) (to_ : Address) (minBTK : ℕ) :
      Buys (.mintDeposit accountType to_ minBTK)

/-- The storages that a deployment and the permitted calls reach. -/
inductive RunBy (contract : Contract) (permitted : Call → Prop) : Storage → Prop
  | construct (deployed : construct msg centralBridgeRouter ethBalance = .ok s) :
      RunBy contract permitted s
  | call (run : RunBy contract permitted s) (allowed : permitted call)
      (ran : exec contract s msg call = .ok t) :
      RunBy contract permitted t

structure Priced (s : Storage) : Prop where
  supply : curve s.poolBalance = s.totalSupply
  balances : ∀ account, s.balances account ≤ s.totalSupply

theorem mintInternal_ok_iff : mintInternal s to_ numEth minBTK = .ok (t, numBTK) ↔
    4 ≤ numEth ∧ ethToBTokens s.poolBalance (numEth / 4) = .ok numBTK ∧ minBTK ≤ numBTK ∧
      s.poolBalance + numEth / 4 < 2 ^ 256 ∧ to_ ≠ 0 ∧ s.totalSupply + numBTK < 2 ^ 256 ∧
      s.balances to_ + numBTK < 2 ^ 256 ∧
      { s with
        poolBalance := s.poolBalance + numEth / 4
        totalSupply := s.totalSupply + numBTK
        balances := Function.update s.balances to_ (s.balances to_ + numBTK) } = t := by
  simp only [mintInternal, erc20Mint, add256, ok_iff', add_ok_iff]
  constructor
  · rintro ⟨enough, _, priced, least, _, ⟨pool, rfl⟩, _,
      ⟨someone, _, ⟨supply, rfl⟩, _, ⟨balance, rfl⟩, rfl⟩, rfl, rfl⟩
    exact ⟨enough, priced, least, pool, someone, supply, balance, rfl⟩
  · rintro ⟨enough, priced, least, pool, someone, supply, balance, rfl⟩
    exact ⟨enough, _, priced, least, _, ⟨pool, rfl⟩, _,
      ⟨someone, _, ⟨supply, rfl⟩, _, ⟨balance, rfl⟩, rfl⟩, rfl, rfl⟩

theorem Priced.mint (priced : Priced s)
    (ran : mintInternal (payable s msg) to_ msg.value minBTK = .ok (t, numBTK)) : Priced t := by
  obtain ⟨_, bought, _, _, _, _, _, rfl⟩ := mintInternal_ok_iff.mp ran
  have rise := ethToBTokens_ok bought
  refine ⟨?_, fun account => ?_⟩
  · simp only [payable, Nat.cast_add] at rise ⊢
    rw [rise, ← priced.supply]
    ring
  · have held := priced.balances account
    by_cases same : account = to_
    · subst same
      simp [payable, held]
    · simp only [payable, Function.update_of_ne same]
      exact held.trans (Nat.le_add_right _ _)

private theorem doDepositCommon_priced
    (ran : doDepositCommon s accountType to_ amount = .ok (t, depositID)) (priced : Priced s) :
    Priced t := by
  simp only [doDepositCommon, add256, ok_iff', add_ok_iff] at ran
  obtain ⟨_, _, _, _, rfl, _⟩ := ran
  exact ⟨priced.supply, priced.balances⟩

theorem RunBy.priced (run : RunBy contract Call.Buys s) : Priced s := by
  induction run with
  | construct deployed =>
    simp only [BToken.construct, virtualDeposit, ok_iff'] at deployed
    obtain ⟨_, _, _, _, ⟨_, _, deposited⟩, rfl⟩ := deployed
    exact doDepositCommon_priced deposited ⟨curve_zero, fun _ => le_rfl⟩
  | call _ allowed ran priced =>
    cases allowed with
    | mints mints =>
      cases mints with
      | mint minBTK | mintTo to_ minBTK =>
        obtain ⟨⟨_, _⟩, minted, rfl⟩ := map_ok_iff.mp ran
        exact priced.mint minted
    | mintDeposit accountType to_ minBTK =>
      simp only [exec, BToken.mintDeposit, mintDepositInternal, ok_iff'] at ran
      obtain ⟨_, _, ⟨_, _, _, _, _, deposited⟩, rfl⟩ := ran
      exact doDepositCommon_priced deposited ⟨priced.supply, priced.balances⟩

theorem RunBy.mono (weaker : ∀ call, permitted call → other call)
    (run : RunBy contract permitted s) : RunBy contract other s := by
  induction run with
  | construct deployed => exact .construct deployed
  | call _ allowed ran ih => exact ih.call (weaker _ allowed) ran

theorem Priced.quote (priced : Priced s) (quoted : getLatestEthToMintBTokens s n = .ok numEth) :
    s.totalSupply + n < 2 ^ 122 ∧ s.poolBalance ≤ inverse (s.totalSupply + n) ∧
      numEth = (inverse (s.totalSupply + n) - s.poolBalance) * 4 := by
  simp only [getLatestEthToMintBTokens, getEthToMintBTokens, pInverse, add256, sub256, mul256,
    MARKET_SPREAD, bind_ok_iff, add_ok_iff, sub_ok_iff, mul_ok_iff] at quoted
  obtain ⟨_, ⟨_, rfl⟩, _, grown, _, before, _, ⟨le, rfl⟩, _, rfl⟩ := quoted
  have small := lt_of_disc (pInverse_succeeds_iff.mp ⟨_, grown⟩)
  rw [pInverse_ok grown, pInverse_ok before, inverse_of_curve priced.supply] at le ⊢
  exact ⟨small, le, rfl⟩

private theorem p_of_curve {n : ℕ} (small : t < 2 ^ 120) (reached : curve t = n) : p t = .ok n := by
  obtain ⟨m, ran⟩ : ∃ m, p t = .ok m := p_succeeds small
  have value := p_ok ran
  rw [reached, Nat.cast_inj] at value
  rw [ran, value]

/-- The Ether that is quoted buys as many tokens as the curve has at the pool that it fills, which
is the number asked for only if the curve takes that value. -/
theorem RunBy.quote_sufficient_iff (run : RunBy contract Call.Mints s) (pos : 1 ≤ n)
    (quoted : getLatestEthToMintBTokens s n = .ok numEth) (msg : Msg) (sent : msg.value = numEth) :
    (∃ t numBTK, BToken.mint s msg n = .ok (t, numBTK)) ↔
      msg.sender ≠ 0 ∧ ∃ pool, p pool = .ok (s.totalSupply + n) := by
  have priced := (run.mono fun _ => Call.Buys.mints).priced
  obtain ⟨small, le, rfl⟩ := priced.quote quoted
  simp only [BToken.mint, mintInternal_ok_iff, sent, Nat.mul_div_cancel _ (show 0 < 4 by norm_num),
    payable, Nat.add_sub_cancel' le]
  have below := (curve_le_iff_le_inverse _ (s.totalSupply + n)).mpr le_rfl
  have filled := four_mul_le_curve (inverse (s.totalSupply + n))
  constructor
  · rintro ⟨_, numBTK, _, bought, enough, _, someone, _⟩
    have rise := ethToBTokens_ok bought
    rw [Nat.add_sub_cancel' le, priced.supply] at rise
    refine ⟨someone, _, p_of_curve (t := inverse (s.totalSupply + n)) (by omega) ?_⟩
    push_cast at below ⊢
    omega
  · rintro ⟨someone, pool, reached⟩
    obtain rfl := inverse_of_curve (p_ok reached).symm
    have grown : inverse (s.totalSupply + n) ≠ s.poolBalance := by
      intro same
      have value := p_ok reached
      rw [same, priced.supply] at value
      omega
    have held := priced.balances msg.sender
    refine ⟨_, n, by omega, ?_, le_rfl, by omega, someone, by omega, by omega, rfl⟩
    simp only [ethToBTokens, add256, sub256, bind_ok_iff, add_ok_iff, sub_ok_iff,
      Nat.add_sub_cancel' le]
    exact ⟨_, ⟨by omega, rfl⟩, _, reached, _,
      p_of_curve (by omega) priced.supply, by omega, by omega⟩

/-- The Ether quoted for one token right after the deployment does not buy it. -/
theorem quote_falls_short : ∃ s numEth, RunBy sample Call.Mints s ∧
    getLatestEthToMintBTokens s (10 ^ 18) = .ok numEth ∧
      ∀ t numBTK, BToken.mint s (trader numEth) (10 ^ 18) ≠ .ok (t, numBTK) := by
  have value : (do
      let s ← construct (trader 0) 2 0
      let numEth ← getLatestEthToMintBTokens s (10 ^ 18)
      pure (BToken.mint s (trader numEth) (10 ^ 18)).isOk : Except Revert Bool) = .ok false := by
    decide
  simp only [ok_iff] at value
  obtain ⟨s, deployed, numEth, quoted, short⟩ := value
  refine ⟨s, numEth, .construct deployed, quoted, fun t numBTK minted => ?_⟩
  rw [minted] at short
  exact Bool.noConfusion short

def grown : Except Revert Storage := do
  let s ← construct (trader 0) 2 0
  let (s, _) ← mint s (trader (4 * 10 ^ 18)) 0
  pure s

theorem run_grown (ran : grown = .ok s) : RunBy sample Call.Mints s := by
  simp only [grown, ok_iff'] at ran
  obtain ⟨s, deployed, t, _, minted, rfl⟩ := ran
  have done : exec sample s (trader (4 * 10 ^ 18)) (.mint 0) = .ok t := by
    rw [exec, minted]
    rfl
  exact (RunBy.construct deployed).call (.mint 0) done

theorem quote_sufficient_first : ∃ s, RunBy sample Call.Mints s ∧ s.totalSupply ≠ 0 ∧
    getLatestEthToMintBTokens s 804052796572551364127 = .ok (8 * 10 ^ 18) ∧
      ∃ t numBTK, BToken.mint s (trader (8 * 10 ^ 18)) 804052796572551364127 = .ok (t, numBTK) := by
  have value : (do
      let s ← grown
      let numEth ← getLatestEthToMintBTokens s 804052796572551364127
      let price ← p (3 * 10 ^ 18)
      pure (numEth, decide (s.totalSupply ≠ 0 ∧ price = s.totalSupply + 804052796572551364127)) :
        Except Revert (ℕ × Bool)) = .ok (8 * 10 ^ 18, true) := by
    decide +kernel
  simp only [ok_iff', decide_eq_true_eq] at value
  obtain ⟨s, ran, _, quoted, price, reached, rfl, minted, rfl⟩ := value
  have run := run_grown ran
  exact ⟨s, run, minted, quoted, (RunBy.quote_sufficient_iff run (by norm_num) quoted
    (trader (8 * 10 ^ 18)) rfl).mpr ⟨by decide, 3 * 10 ^ 18, reached⟩⟩

/-- `mint` and then `deposit` of what was minted, by the same caller. -/
def mintThenDeposit (s : Storage) (msg : Msg) (accountType : UInt8) (to_ : Address) (minBTK : ℕ) :
    Except Revert (Storage × ℕ) := do
  let (s, numBTK) ← mint s msg minBTK
  deposit s { msg with value := 0 } accountType to_ numBTK

theorem Priced.destroy_minted (priced : Priced s)
    (minted : mintInternal s account numEth minBTK = .ok (t, numBTK))
    (covered : pInverse (s.totalSupply + numBTK) = .ok claim) :
    destroyTokens t account numBTK = .ok (s, true) := by
  obtain ⟨enough, bought, _, _, someone, _, _, rfl⟩ := mintInternal_ok_iff.mp minted
  have rise := ethToBTokens_ok bought
  have more := curve_strictMono (show s.poolBalance < s.poolBalance + numEth / 4 by omega)
  have after : inverse (s.totalSupply + numBTK) = s.poolBalance + numEth / 4 :=
    inverse_of_curve (by push_cast; rw [rise, ← priced.supply]; ring)
  obtain ⟨rest, before⟩ : ∃ rest, pInverse s.totalSupply = .ok rest :=
    pInverse_succeeds_iff.mpr
      (disc_mono (Nat.le_add_right _ _) (pInverse_succeeds_iff.mp ⟨_, covered⟩))
  obtain rfl := (pInverse_ok covered).trans after
  obtain rfl := (pInverse_ok before).trans (inverse_of_curve priced.supply)
  have paid : bTokensToEth (s.poolBalance + numEth / 4) (s.totalSupply + numBTK) numBTK =
      .ok (numEth / 4) := by
    simp only [bTokensToEth, sub256, ok_iff', sub_ok_iff, Nat.add_sub_cancel]
    exact ⟨by omega, _, covered, _, ⟨by omega, rfl⟩, _, before, _, ⟨by omega, rfl⟩, by omega⟩
  simp only [destroyTokens, erc20Burn, paid, sub256, ok_iff', sub_ok_iff]
  refine ⟨by omega, _, rfl, _, ⟨by omega, rfl⟩, _, ⟨someone, by simp, _, ⟨by simp, rfl⟩, rfl⟩, ?_,
    trivial⟩
  simp

/-- Both ways to a deposit leave one and the same storage, unless the inverse curve overflows on the
second. -/
theorem RunBy.mintDeposit_iff (run : RunBy contract Call.Buys s) (someone : msg.sender ≠ 0)
    (covered : ∀ numBTK, ethToBTokens s.poolBalance (msg.value / MARKET_SPREAD) = .ok numBTK →
      ∃ claim, pInverse (s.totalSupply + numBTK) = .ok claim)
    (accountType : UInt8) (to_ : Address) (minBTK : ℕ) (result : Storage × ℕ) :
    BToken.mintDeposit s msg accountType to_ minBTK = .ok result ↔
      mintThenDeposit s msg accountType to_ minBTK = .ok result := by
  have priced : Priced (payable s msg) := ⟨run.priced.supply, run.priced.balances⟩
  simp only [BToken.mintDeposit, mintDepositInternal, mintThenDeposit, BToken.mint, deposit,
    nonPayable, depositInternal, ok_iff']
  constructor
  · rintro ⟨plain, enough, numBTK, bought, least, deposited⟩
    obtain ⟨claim, claimed⟩ := covered numBTK bought
    have small := lt_of_disc (pInverse_succeeds_iff.mp ⟨_, claimed⟩)
    have held := run.priced.balances msg.sender
    obtain ⟨_, fits, _⟩ := bind_ok_iff.mp bought
    have minted : mintInternal (payable s msg) msg.sender msg.value minBTK = .ok (_, numBTK) :=
      mintInternal_ok_iff.mpr ⟨enough, bought, least, (add_ok_iff.mp fits).1, someone,
        show s.totalSupply + numBTK < _ by omega, show s.balances _ + numBTK < _ by omega, rfl⟩
    have destroyed := priced.destroy_minted minted claimed
    obtain ⟨_, pos, _⟩ := bind_ok_iff.mp destroyed
    exact ⟨_, numBTK, minted, trivial, plain, require_ok_iff.mp pos, _, _, destroyed, rfl,
      deposited⟩
  · rintro ⟨t, numBTK, minted, _, plain, _, _, _, destroyed, _, deposited⟩
    obtain ⟨enough, bought, least, _⟩ := mintInternal_ok_iff.mp minted
    obtain ⟨claim, claimed⟩ := covered numBTK bought
    rw [priced.destroy_minted minted claimed] at destroyed
    obtain ⟨rfl, _⟩ := Prod.mk.inj (Except.ok.inj destroyed)
    exact ⟨plain, enough, numBTK, bought, least, deposited⟩

theorem mintDeposit_first : ∃ s result, RunBy sample Call.Buys s ∧ s.totalSupply ≠ 0 ∧
    BToken.mintDeposit s (trader (4 * 10 ^ 18)) 1 3 0 = .ok result ∧
      mintThenDeposit s (trader (4 * 10 ^ 18)) 1 3 0 = .ok result := by
  have value : (do
      let s ← grown
      let numBTK ← ethToBTokens s.poolBalance (10 ^ 18)
      let _ ← pInverse (s.totalSupply + numBTK)
      let _ ← BToken.mintDeposit s (trader (4 * 10 ^ 18)) 1 3 0
      pure (decide (s.totalSupply ≠ 0)) : Except Revert Bool) = .ok true := by
    decide +kernel
  simp only [ok_iff', decide_eq_true_eq] at value
  obtain ⟨s, ran, numBTK, bought, claim, claimed, t, depositID, deposited, minted⟩ := value
  have run : RunBy sample Call.Buys s := (run_grown ran).mono fun _ => .mints
  refine ⟨s, (t, depositID), run, minted, deposited,
    (RunBy.mintDeposit_iff run (by decide) ?_ 1 3 0 _).mp deposited⟩
  rintro other same
  obtain rfl := Except.ok.inj (bought.symm.trans same)
  exact ⟨claim, claimed⟩

/-- With 2 ^ 119 units for the pool the deposit goes through at once, but not after a mint: the
inverse curve overflows on a supply that the curve itself can still price. -/
theorem mintDeposit_differs : ∃ s, RunBy sample Call.Buys s ∧
    (∃ result, BToken.mintDeposit s (trader (4 * 2 ^ 119)) 1 3 0 = .ok result) ∧
      ∀ result, mintThenDeposit s (trader (4 * 2 ^ 119)) 1 3 0 ≠ .ok result := by
  have value : (do
      let s ← construct (trader 0) 2 0
      let _ ← BToken.mintDeposit s (trader (4 * 2 ^ 119)) 1 3 0
      pure (mintThenDeposit s (trader (4 * 2 ^ 119)) 1 3 0).isOk : Except Revert Bool) =
          .ok false := by
    decide +kernel
  simp only [ok_iff] at value
  obtain ⟨s, deployed, result, deposited, fails⟩ := value
  refine ⟨s, .construct deployed, ⟨result, deposited⟩, fun other ran => ?_⟩
  rw [ran] at fails
  exact Bool.noConfusion fails

end AliceNet.Bridge.BToken
