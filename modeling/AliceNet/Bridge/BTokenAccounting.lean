import AliceNet.Bridge.BToken

/-! The pool and the Ether of the utility token, and what callers can take out. -/

namespace AliceNet.Bridge.BToken

open Outcome Sigmoid Word

theorem ethToBTokens_ok (ran : ethToBTokens pool numEth = .ok n) :
    (n : ℤ) = curve (pool + numEth) - curve pool := by
  simp only [ethToBTokens, p, add256, sub256, bind_ok_iff, add_ok_iff, sub_ok_iff] at ran
  obtain ⟨_, ⟨_, rfl⟩, grown, high, before, low, le, rfl⟩ := ran
  rw [Nat.cast_sub le, p_ok high, p_ok low]

private theorem bTokensToEth_ok (ran : bTokensToEth pool supply numBTK = .ok numEth) :
    numBTK ≤ supply ∧ numEth ≤ pool ∧ numEth + inverse (supply - numBTK) ≤ inverse supply := by
  simp only [bTokensToEth, pInverse, sub256, ok_iff', sub_ok_iff] at ran
  obtain ⟨enough, before, high, _, ⟨_, rfl⟩, rest, low, _, ⟨le, rfl⟩, rfl⟩ := ran
  refine ⟨enough, min_le_left _ _, ?_⟩
  rw [← pInverse_ok high, ← pInverse_ok low]
  omega

private theorem erc20Mint_ok (ran : erc20Mint s account amount = .ok t) :
    t.poolBalance = s.poolBalance ∧ t.ethBalance = s.ethBalance ∧ t.totalSupply = s.totalSupply +
      amount := by
  simp only [erc20Mint, add256, ok_iff', add_ok_iff] at ran
  obtain ⟨_, _, ⟨_, rfl⟩, _, _, rfl⟩ := ran
  exact ⟨rfl, rfl, rfl⟩

theorem erc20Burn_ok (ran : erc20Burn s account amount = .ok t) :
    t.poolBalance = s.poolBalance ∧ t.ethBalance = s.ethBalance ∧ t.totalSupply =
      s.totalSupply - amount := by
  simp only [erc20Burn, sub256, ok_iff', sub_ok_iff] at ran
  obtain ⟨_, _, _, ⟨_, rfl⟩, rfl⟩ := ran
  exact ⟨rfl, rfl, rfl⟩

theorem safeTransferEth_ok (ran : safeTransferEth contract s msg to_ amount = .ok t) :
    t.poolBalance = s.poolBalance ∧ t.totalSupply = s.totalSupply ∧ t.ethBalance + amount =
      s.ethBalance := by
  unfold safeTransferEth at ran
  split at ran
  · rename_i zero
    obtain rfl := pure_ok_iff.mp ran
    exact ⟨rfl, rfl, by rw [zero, add_zero]⟩
  · simp only [ok_iff'] at ran
    obtain ⟨_, ⟨enough, _⟩, rfl⟩ := ran
    exact ⟨rfl, rfl, Nat.sub_add_cancel enough⟩

theorem destroyTokens_ok (ran : destroyTokens s account numBTK = .ok (t, done)) :
    t.poolBalance ≤ s.poolBalance ∧ t.ethBalance = s.ethBalance := by
  simp only [destroyTokens, sub256, ok_iff', sub_ok_iff] at ran
  obtain ⟨_, _, _, _, ⟨_, rfl⟩, _, burnt, rfl, _⟩ := ran
  obtain ⟨pool, eth, _⟩ := erc20Burn_ok burnt
  exact ⟨pool.trans_le (Nat.sub_le _ _), eth⟩

theorem doDepositCommon_ok (ran : doDepositCommon s accountType to_ amount = .ok (t, depositID)) :
    t.poolBalance = s.poolBalance ∧ t.ethBalance = s.ethBalance := by
  simp only [doDepositCommon, add256, ok_iff', add_ok_iff] at ran
  obtain ⟨_, _, _, _, rfl, _⟩ := ran
  exact ⟨rfl, rfl⟩

theorem mintInternal_ok (ran : mintInternal s to_ numEth minBTK = .ok (t, numBTK)) :
    t.poolBalance = s.poolBalance + numEth / 4 ∧ t.ethBalance = s.ethBalance ∧
      t.totalSupply = s.totalSupply + numBTK ∧
      (numBTK : ℤ) = curve (s.poolBalance + numEth / 4) - curve s.poolBalance := by
  simp only [mintInternal, add256, ok_iff', add_ok_iff] at ran
  obtain ⟨_, _, priced, _, _, ⟨_, rfl⟩, _, minted, rfl, rfl⟩ := ran
  obtain ⟨pool, eth, supply⟩ := erc20Mint_ok minted
  exact ⟨pool, eth, supply, ethToBTokens_ok priced⟩

theorem burnInternal_ok
    (ran : burnInternal contract s msg sender to_ numBTK minEth = .ok (t, numEth)) :
    t.poolBalance + numEth = s.poolBalance ∧ t.ethBalance + numEth = s.ethBalance ∧
      numEth + inverse t.totalSupply ≤ inverse s.totalSupply := by
  simp only [burnInternal, sub256, ok_iff', sub_ok_iff] at ran
  obtain ⟨_, _, priced, _, _, ⟨le, rfl⟩, _, burnt, _, sent, rfl, rfl⟩ := ran
  obtain ⟨pool, eth, supply⟩ := erc20Burn_ok burnt
  obtain ⟨pool', supply', eth'⟩ := safeTransferEth_ok sent
  obtain ⟨_, _, claim⟩ := bTokensToEth_ok priced
  refine ⟨?_, eth'.trans eth, ?_⟩
  · rw [pool', pool]
    exact Nat.sub_add_cancel le
  · rw [supply', supply]
    exact claim

private theorem payFee_ok (ran : payFee contract s msg bTokenFee = .ok t) :
    t.poolBalance + s.ethBalance ≤ s.poolBalance + msg.value + t.ethBalance := by
  unfold payFee at ran
  split at ran
  · simp only [ok_iff'] at ran
    obtain ⟨ethFee, _, _, sent⟩ := ran
    obtain ⟨pool, _, eth⟩ := safeTransferEth_ok sent
    omega
  · simp only [ok_iff'] at ran
    obtain ⟨_, _, destroyed, rfl⟩ := ran
    obtain ⟨pool, eth⟩ := destroyTokens_ok destroyed
    omega

private theorem distributeInternal_ok (ran : distributeInternal s msg = .ok (t, done)) :
    t.poolBalance ≤ t.ethBalance := by
  simp only [distributeInternal, safeTransferEthWithMagic, sub256, bind_ok_iff, sub_ok_iff] at ran
  obtain ⟨_, ⟨le, rfl⟩, ran⟩ := ran
  split at ran
  · obtain ⟨rfl, _⟩ := Prod.mk.inj (pure_ok_iff.mp ran)
    exact le
  · simp only [ok_iff'] at ran
    obtain ⟨_, ⟨_, _, _, rfl⟩, enough, rfl, _⟩ := ran
    exact enough

/-- The router only does what `inner` allows. -/
def Msg.Routes (msg : Msg) (inner : Storage → Storage → Prop) : Prop :=
  ∀ s sender version data t fee,
    msg.routeDeposit s sender version data = .ok (t, fee) → inner s t

/-- A call that is allowed or a plain transfer of Ether -/
inductive Step (contract : Contract) (allowed : Call → Prop) (inner : Storage → Storage → Prop) :
    Storage → Storage → Prop
  | call (msg : Msg) (call : Call) (permitted : allowed call) (routes : msg.Routes inner)
      (ran : exec contract s msg call = .ok t) : Step contract allowed inner s t
  | receive (amount : ℕ) :
      Step contract allowed inner s { s with ethBalance := s.ethBalance + amount }

def Nested (contract : Contract) (inside : Call → Prop) : ℕ → Storage → Storage → Prop
  | 0 => Eq
  | depth + 1 => Relation.ReflTransGen (Step contract inside (Nested contract inside depth))

inductive Run (contract : Contract) (inside : Call → Prop) : Storage → Prop
  | construct (deployed : construct msg centralBridgeRouter ethBalance = .ok s) :
      Run contract inside s
  | step (run : Run contract inside s) (depth : ℕ)
      (step : Step contract (fun _ => True) (Nested contract inside depth) s t) :
      Run contract inside t

/-- The Ether beyond the pool has not become less. -/
def KeepsExcess (s t : Storage) : Prop :=
  t.poolBalance + s.ethBalance ≤ s.poolBalance + t.ethBalance

private theorem construct_backed (deployed : construct msg centralBridgeRouter ethBalance = .ok s) :
    s.poolBalance ≤ s.ethBalance := by
  simp only [construct, virtualDeposit, ok_iff'] at deployed
  obtain ⟨_, _, _, _, ⟨_, _, deposited⟩, rfl⟩ := deployed
  obtain ⟨pool, _⟩ := doDepositCommon_ok deposited
  rw [pool]
  exact Nat.zero_le _

private theorem mint_keeps
    (ran : mintInternal (payable s msg) to_ msg.value minBTK = .ok (t, numBTK)) :
    KeepsExcess s t := by
  obtain ⟨pool, eth, _⟩ := mintInternal_ok ran
  simp only [payable] at pool eth
  unfold KeepsExcess
  omega

private theorem burn_keeps
    (ran : burnInternal contract s msg sender to_ numBTK minEth = .ok (t, numEth)) :
    KeepsExcess s t := by
  obtain ⟨pool, eth, _⟩ := burnInternal_ok ran
  unfold KeepsExcess
  omega

theorem exec_keeps {inner : Storage → Storage → Prop} (ran : exec contract s msg call = .ok t)
    (other : call ≠ .distribute) (routes : msg.Routes inner)
    (keeps : ∀ s t, inner s t → KeepsExcess s t) : KeepsExcess s t := by
  cases call with
  | distribute => exact absurd rfl other
  | deposit accountType to_ amount =>
    simp only [exec, deposit, depositInternal, ok_iff'] at ran
    obtain ⟨_, _, ⟨_, _, _, _, _, _, destroyed, _, deposited⟩, rfl⟩ := ran
    obtain ⟨pool, eth⟩ := destroyTokens_ok destroyed
    obtain ⟨pool', eth'⟩ := doDepositCommon_ok deposited
    unfold KeepsExcess
    omega
  | virtualMintDeposit accountType to_ amount =>
    simp only [exec, virtualMintDeposit, virtualDeposit, ok_iff'] at ran
    obtain ⟨_, _, ⟨_, _, _, _, _, _, deposited⟩, rfl⟩ := ran
    obtain ⟨pool, eth⟩ := doDepositCommon_ok deposited
    unfold KeepsExcess
    omega
  | mintDeposit accountType to_ minBTK =>
    simp only [exec, mintDeposit, mintDepositInternal, ok_iff'] at ran
    obtain ⟨_, _, ⟨_, _, _, _, _, deposited⟩, rfl⟩ := ran
    obtain ⟨pool, eth⟩ := doDepositCommon_ok deposited
    simp only [payable] at pool eth
    unfold KeepsExcess
    omega
  | mint minBTK | mintTo to_ minBTK =>
    obtain ⟨⟨_, _⟩, minted, rfl⟩ := map_ok_iff.mp ran
    exact mint_keeps minted
  | destroyBTokens numBTK =>
    simp only [exec, destroyBTokens, ok_iff'] at ran
    obtain ⟨_, _, ⟨_, _, _, _, destroyed, rfl, _⟩, rfl⟩ := ran
    obtain ⟨pool, eth⟩ := destroyTokens_ok destroyed
    unfold KeepsExcess
    omega
  | depositTokensOnBridges routerVersion data =>
    -- the value sent along is still there when the refund is made
    simp only [exec, depositTokensOnBridges, bind_ok_iff] at ran
    obtain ⟨⟨u, fee⟩, routed, paid⟩ := ran
    have kept := keeps _ _ (routes _ _ _ _ _ _ routed)
    have refund := payFee_ok paid
    simp only [KeepsExcess, payable] at kept refund ⊢
    omega
  | burn amount minEth =>
    simp only [exec, burn, ok_iff'] at ran
    obtain ⟨_, _, ⟨_, _, burnt⟩, rfl⟩ := ran
    exact burn_keeps burnt
  | burnTo to_ amount minEth =>
    simp only [exec, burnTo, ok_iff'] at ran
    obtain ⟨_, _, ⟨_, _, burnt⟩, rfl⟩ := ran
    exact burn_keeps burnt

theorem Step.keeps {inner : Storage → Storage → Prop}
    (step : Step contract (· ≠ .distribute) inner s t)
    (keeps : ∀ s t, inner s t → KeepsExcess s t) : KeepsExcess s t := by
  cases step with
  | call msg call other routes ran => exact exec_keeps ran other routes keeps
  | receive amount =>
    show s.poolBalance + s.ethBalance ≤ s.poolBalance + (s.ethBalance + amount)
    omega

private theorem nested_keeps (depth : ℕ) :
    ∀ s t, Nested contract (· ≠ .distribute) depth s t → KeepsExcess s t := by
  induction depth with
  | zero =>
    rintro s _ rfl
    exact le_rfl
  | succ depth ih =>
    intro s t steps
    induction steps with
    | refl => exact le_rfl
    | tail _ step before =>
      have after := step.keeps ih
      unfold KeepsExcess at before after ⊢
      omega

theorem Run.backed (run : Run contract (· ≠ .distribute) s) : s.poolBalance ≤ s.ethBalance := by
  induction run with
  | construct deployed => exact construct_backed deployed
  | step _ depth step ih =>
    cases step with
    | call msg call _ routes ran =>
      by_cases distributes : call = .distribute
      · subst distributes
        simp only [exec, distribute, ok_iff'] at ran
        obtain ⟨_, _, ⟨_, _, _, _, _, distributed, rfl, _⟩, rfl⟩ := ran
        have backed := distributeInternal_ok distributed
        exact backed
      · have kept := exec_keeps ran distributes routes (nested_keeps depth)
        unfold KeepsExcess at kept
        omega
    | receive amount => exact ih.trans (Nat.le_add_right _ _)

/-- Mints and burns, with the Ether that was paid and received; `guard` holds at every mint. -/
inductive Trades (contract : Contract) (guard : Storage → Prop) (s : Storage) : Storage → ℕ → ℕ →
  Prop
  | start : Trades contract guard s s 0 0
  | mint (trades : Trades contract guard s t paid received) (guarded : guard t)
      (ran : BToken.mint t msg minBTK = .ok (u, numBTK)) :
        Trades contract guard s u (paid + msg.value) received
  | mintTo (trades : Trades contract guard s t paid received) (guarded : guard t)
      (ran : BToken.mintTo t msg to_ minBTK = .ok (u, numBTK)) :
      Trades contract guard s u (paid + msg.value) received
  | burn (trades : Trades contract guard s t paid received)
      (ran : BToken.burn contract t msg amount minEth = .ok (u, numEth)) :
      Trades contract guard s u paid (received + numEth)
  | burnTo (trades : Trades contract guard s t paid received)
      (ran : BToken.burnTo contract t msg to_ amount minEth = .ok (u, numEth)) :
      Trades contract guard s u paid (received + numEth)

def Covered (s : Storage) : Prop :=
  inverse s.totalSupply ≤ s.poolBalance + 17 * 10 ^ 18

private theorem mint_claim
    (ran : mintInternal (payable s msg) to_ msg.value minBTK = .ok (t, numBTK))
    (covered : Covered s) : inverse t.totalSupply ≤ inverse s.totalSupply + msg.value := by
  obtain ⟨_, _, supply, priced⟩ := mintInternal_ok ran
  rw [supply]
  have claim := inverse_add_le covered priced
  simp only [payable] at claim ⊢
  omega

theorem Trades.claim (trades : Trades contract Covered s t paid received) :
    received + inverse t.totalSupply ≤ paid + inverse s.totalSupply := by
  induction trades with
  | start => exact le_rfl
  | mint _ covered ran ih | mintTo _ covered ran ih =>
    have := mint_claim ran covered
    omega
  | burn _ ran ih | burnTo _ ran ih =>
    obtain ⟨_, _, burnt⟩ := bind_ok_iff.mp ran
    obtain ⟨_, _, claim⟩ := burnInternal_ok burnt
    omega

/-- If routers do not call `distribute`, the pool is backed in every reachable storage. From there
trades that leave the supply as it was pay out no more than was paid in, if no mint finds the pool
more than 17 Ether short of the supply's claim. -/
theorem Run.accounting (run : Run contract (· ≠ .distribute) s) :
    s.poolBalance ≤ s.ethBalance ∧
      ∀ t paid received, Trades contract Covered s t paid received → t.totalSupply = s.totalSupply →
        received ≤ paid := by
  refine ⟨run.backed, fun t paid received trades same => ?_⟩
  have claim := trades.claim
  rw [same] at claim
  exact Nat.le_of_add_le_add_right claim

def sample : Contract := ⟨10, 11⟩

def trader (value : ℕ) : Msg where
  sender := 1
  value := value
  isContract account := account = 2
  receives _ := true
  routeDeposit s _ _ _ := .ok (s, 0)
  depositEth _ := .ok ()

def cycle (s : Storage) : Except Revert Storage := do
  let (s, _) ← burn sample s (trader 0) (s.totalSupply - 40000 * 10 ^ 18) 0
  let (s, _) ← mint s (trader (4 * (10000 * 10 ^ 18 - s.poolBalance))) 0
  pure s

def cycles : ℕ → Storage → Except Revert Storage
  | 0, s => pure s
  | n + 1, s => cycle s >>= cycles n

def opened : Except Revert Storage := do
  let s ← construct (trader 0) 2 0
  let (s, _) ← mint s (trader (40000 * 10 ^ 18)) 0
  pure s

def drained : Except Revert Storage := do
  let s ← opened
  let s ← cycles 11 s
  let (s, _) ← burn sample s (trader 0) (s.totalSupply - 1008000 * 10 ^ 18) 0
  pure s

/-- Mints for 4 Ether and burns the tokens at once. -/
def roundTrip (s : Storage) : Except Revert (Storage × ℕ) := do
  let (s, numBTK) ← mint s (trader (4 * 10 ^ 18)) 0
  burn sample s (trader 0) numBTK 0

theorem trader_routes (value : ℕ) : (trader value).Routes Eq := by
  intro s sender version data t fee routed
  exact (Prod.mk.inj (Except.ok.inj routed)).1

theorem Run.exec {inside : Call → Prop} (run : Run contract inside s)
    (ran : BToken.exec contract s (trader value) call = .ok t) : Run contract inside t :=
  run.step 0 (.call _ call trivial (trader_routes value) ran)

theorem Run.mint {inside : Call → Prop} (run : Run contract inside s)
    (ran : BToken.mint s (trader value) minBTK = .ok (t, numBTK)) : Run contract inside t := by
  have done : BToken.exec contract s (trader value) (.mint minBTK) = .ok t := by
    rw [BToken.exec, ran]
    rfl
  exact run.exec done

theorem Run.burn {inside : Call → Prop} (run : Run contract inside s)
    (ran : BToken.burn contract s (trader value) amount minEth = .ok (t, numEth)) :
    Run contract inside t := by
  have done : BToken.exec contract s (trader value) (.burn amount minEth) = .ok t := by
    rw [BToken.exec, ran]
    rfl
  exact run.exec done

section

variable {inside : Call → Prop}

private theorem run_cycles (run : Run sample inside s) (ran : cycles n s = .ok t) :
    Run sample inside t := by
  induction n generalizing s with
  | zero =>
    obtain rfl := pure_ok_iff.mp ran
    exact run
  | succ n ih =>
    simp only [cycles, cycle, ok_iff'] at ran
    obtain ⟨_, ⟨_, _, burnt, _, _, minted, rfl⟩, rest⟩ := ran
    exact ih ((run.burn burnt).mint minted) rest

theorem run_opened (ran : opened = .ok s) : Run sample inside s := by
  simp only [opened, ok_iff'] at ran
  obtain ⟨_, deployed, _, _, minted, rfl⟩ := ran
  exact (Run.construct deployed).mint minted

private theorem run_drained (ran : drained = .ok s) : Run sample inside s := by
  simp only [drained, ok_iff'] at ran
  obtain ⟨_, ran, _, looped, _, _, burnt, rfl⟩ := ran
  exact (run_cycles (run_opened ran) looped).burn burnt

end

theorem trades_roundTrip {guard : Storage → Prop} (ran : roundTrip s = .ok (t, numEth))
    (guarded : guard s) : Trades sample guard s t (4 * 10 ^ 18) numEth := by
  simp only [roundTrip, ok_iff'] at ran
  obtain ⟨_, _, minted, burnt⟩ := ran
  have trades := (Trades.start.mint guarded minted).burn burnt
  rwa [Nat.zero_add, Nat.zero_add] at trades

theorem Run.accounting_opened : ∃ s, Run sample (· ≠ .distribute) s ∧
    s.poolBalance ≤ s.ethBalance ∧ ∃ t received, Trades sample Covered s t (4 * 10 ^ 18) received ∧
      t.totalSupply = s.totalSupply ∧
      0 < received ∧ received ≤ 4 * 10 ^ 18 := by
  have value : (do
      let s ← opened
      let claim ← pInverse s.totalSupply
      let (t, received) ← roundTrip s
      pure (decide (claim ≤ s.poolBalance + 17 * 10 ^ 18 ∧ t.totalSupply = s.totalSupply ∧
        0 < received)) :
        Except Revert Bool) = .ok true := by
    decide +kernel
  simp only [ok_iff', decide_eq_true_eq] at value
  obtain ⟨s, ran, claim, claimed, t, received, traded, covered, same, more⟩ := value
  rw [pInverse_ok claimed] at covered
  have trades : Trades sample Covered s t (4 * 10 ^ 18) received := trades_roundTrip traded covered
  obtain ⟨backed, unprofitable⟩ := Run.accounting (run_opened ran)
  exact ⟨s, run_opened ran, backed, t, received, trades, same, more, unprofitable t _ _ trades same⟩

def distributor (value : ℕ) : Msg :=
  { trader value with
    routeDeposit := fun s _ _ _ => do
      let s ← exec sample s (trader 0) .distribute
      pure (s, 0) }

/-- A round trip costs 4 Ether and returns more than 29. A router that distributes while it is
called takes the Ether that is then refunded from the pool. -/
theorem roundTrip_profits :
    (∃ s t received, Run sample (· ≠ .distribute) s ∧
      Trades sample (fun _ => True) s t (4 * 10 ^ 18) received ∧ t.totalSupply = s.totalSupply ∧
        29 * 10 ^ 18 < received) ∧
    ∃ s, Run sample (fun _ => True) s ∧ s.ethBalance < s.poolBalance := by
  have value : (do
      let s ← drained
      let (t, received) ← roundTrip s
      pure (decide (t.totalSupply = s.totalSupply ∧ 29 * 10 ^ 18 < received)) :
        Except Revert Bool) = .ok true := by
    decide +kernel
  have short : (do
      let s ← opened
      let t ← exec sample s (distributor 1) (.depositTokensOnBridges 1 [])
      pure (decide (t.ethBalance < t.poolBalance)) : Except Revert Bool) = .ok true := by
    decide +kernel
  simp only [ok_iff', decide_eq_true_eq] at value short
  obtain ⟨s, ran, t, received, traded, same, more⟩ := value
  obtain ⟨u, opens, v, deposited, short⟩ := short
  refine ⟨⟨s, t, received, run_drained ran, trades_roundTrip traded trivial, same, more⟩, v, ?_,
    short⟩
  refine (run_opened opens).step 1 (.call _ _ trivial ?_ deposited)
  intro s sender version data t fee routed
  simp only [distributor, ok_iff'] at routed
  obtain ⟨_, distributed, rfl, _⟩ := routed
  exact .single (.call _ .distribute trivial (trader_routes 0) distributed)

end AliceNet.Bridge.BToken
