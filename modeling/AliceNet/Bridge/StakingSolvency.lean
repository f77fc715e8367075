import AliceNet.Bridge.StakingOperations

/-! Solvency of the staking contract over every sequence of calls. -/

namespace AliceNet.Bridge.StakingNFT

open Outcome Accrual Finset
open Function

/-- Positions that exist: the tokens minted and not burned. -/
def live (σ : Storage) : Finset ℕ :=
  (Finset.range (σ.counter + 1)).filter fun tokenID => (σ.owners tokenID).isSome

/-- What the Ether stream owes to the live positions, scaled. -/
def owedEth (σ : Storage) : ℕ :=
  owed (2 ^ 168) σ.ethState.accumulator (live σ) (fun tokenID => (σ.positions tokenID).shares)
    fun tokenID => (σ.positions tokenID).accumulatorEth

def owedToken (σ : Storage) : ℕ :=
  owed (2 ^ 168) σ.tokenState.accumulator (live σ) (fun tokenID => (σ.positions tokenID).shares)
    fun tokenID => (σ.positions tokenID).accumulatorToken

/-- Every scaled liability is covered by the reserve it is paid from. -/
structure Solvent (σ : Storage) : Prop where
  eth : σ.ethState.slush + owedEth σ ≤ ACCUMULATOR_SCALE_FACTOR * σ.reserveEth
  token : ACCUMULATOR_SCALE_FACTOR * σ.shares + σ.tokenState.slush + owedToken σ ≤
    ACCUMULATOR_SCALE_FACTOR * σ.reserveToken
  shares : σ.shares = ∑ tokenID ∈ live σ, (σ.positions tokenID).shares

/-- What every reachable storage satisfies. -/
structure Invariant (chain : Chain) (σ : Storage) : Prop extends Solvent σ where
  minted : ∀ tokenID, σ.owners tokenID ≠ none → tokenID ≤ σ.counter
  ownerNonzero : ∀ tokenID, σ.owners tokenID ≠ some 0
  accumulatorEth : σ.ethState.accumulator < 2 ^ 168
  accumulatorToken : σ.tokenState.accumulator < 2 ^ 168
  markEth : ∀ tokenID ∈ live σ, (σ.positions tokenID).accumulatorEth < 2 ^ 168
  markToken : ∀ tokenID ∈ live σ, (σ.positions tokenID).accumulatorToken < 2 ^ 168
  backedEth : σ.reserveEth ≤ σ.ethBalance
  backedToken : σ.reserveToken ≤ σ.tokenBalance
  boundedEth : σ.ethBalance ≤ chain.ethSupply
  boundedToken : σ.tokenBalance ≤ chain.aTokenSupply

theorem mem_live_iff (inv : Invariant chain σ) : tokenID ∈ live σ ↔ σ.owners tokenID ≠ none := by
  simp only [live, mem_filter, mem_range, Option.isSome_iff_ne_none]
  constructor
  · exact fun mem => mem.2
  · exact fun owned => ⟨Nat.lt_succ_of_le (inv.minted tokenID owned), owned⟩

theorem not_mem_live_next (σ : Storage) : σ.counter + 1 ∉ live σ := by
  simp [live]

theorem sum_shares_erase (mem : tokenID ∈ live σ) :
    ∑ other ∈ live σ, (σ.positions other).shares =
      (σ.positions tokenID).shares + ∑ other ∈ (live σ).erase tokenID, (σ.positions other).shares :=
  (add_sum_erase _ _ mem).symm

theorem apply_update_same (positions : ℕ → Position) (f : Position → α)
    (same : f p = f (positions tokenID)) (other : ℕ) :
    f (update positions tokenID p other) = f (positions other) := by
  rw [apply_update (fun _ => f), same, update_eq_self tokenID fun other => f (positions other)]

theorem owner_update_ne {owners : ℕ → Option Address} (nonzero : ∀ other, owners other ≠ some 0)
    (different : value ≠ some 0) (other : ℕ) : update owners tokenID value other ≠ some 0 := by
  by_cases here : other = tokenID
  · subst here
    simpa using different
  · simpa [here] using nonzero other

/-- A stream owes to its holders and keeps `kept` back. -/
structure Stream (holders : Finset ℕ) (weight marks : ℕ → ℕ) (state : Accumulator)
  (kept reserve : ℕ) : Prop where
  covered : ACCUMULATOR_SCALE_FACTOR * kept + state.slush + owed (2 ^ 168) state.accumulator holders
    weight marks ≤ ACCUMULATOR_SCALE_FACTOR * reserve
  accumulator : state.accumulator < 2 ^ 168
  marks : ∀ tokenID ∈ holders, marks tokenID < 2 ^ 168

namespace Stream

variable {holders : Finset ℕ} {weight marks weight' marks' : ℕ → ℕ}

section

variable (stream : Stream holders weight marks state kept reserve)

include stream

theorem congr (sameWeight : ∀ other ∈ holders, weight' other = weight other)
    (sameMark : ∀ other ∈ holders, marks' other = marks other) :
    Stream holders weight' marks' state kept reserve where
  covered := by
    rw [owed_congr sameWeight sameMark]
    exact stream.covered
  accumulator := stream.accumulator
  marks := fun other mem => by
    rw [sameMark other mem]
    exact stream.marks other mem

theorem pay (total : ∑ holder ∈ holders, weight holder = shares) (mem : tokenID ∈ holders)
    (collected : collect shares state p (marks tokenID) = .ok (state', q, mark, payout))
    (own : weight tokenID = p.shares) :
    q = p ∧ mark = state'.accumulator ∧ payout + kept ≤ reserve ∧
      Stream holders weight (update marks tokenID mark) state' kept (reserve - payout) := by
  obtain ⟨same, accumulatorEq, markEq, split⟩ :=
    collect_ok collected stream.accumulator (stream.marks _ mem)
  have spread := spread_le (by decide : 0 < 2 ^ 168) state.accumulator state.slush holders weight
    marks total
  rw [← accumulatorEq] at spread
  have settled : owed (2 ^ 168) state'.accumulator holders weight (update marks tokenID mark) + _ =
      _ :=
    owed_settle mem (by rw [update_self, markEq]) (fun _ _ => rfl)
      fun _ present => update_of_ne (ne_of_mem_erase present) _ _
  have bound : state'.accumulator < 2 ^ 168 := accumulatorEq ▸ Nat.mod_lt _ (by decide)
  have covered := stream.covered
  rw [own] at settled
  unfold ACCUMULATOR_SCALE_FACTOR at split covered
  refine ⟨same, markEq, by omega, ?_, bound, fun other present => ?_⟩
  · unfold ACCUMULATOR_SCALE_FACTOR
    omega
  · by_cases here : other = tokenID
    · rwa [here, update_self, markEq]
    · rw [update_of_ne here]
      exact stream.marks other present

theorem leave (mem : tokenID ∈ holders) (paid : marks tokenID = state.accumulator)
    (enough : share ≤ kept) :
    Stream (holders.erase tokenID) weight marks state (kept - share) (reserve - share) where
  covered := by
    have covered := stream.covered
    rw [owed_paid mem paid] at covered
    unfold ACCUMULATOR_SCALE_FACTOR at *
    omega
  accumulator := stream.accumulator
  marks := fun other present => stream.marks other (mem_of_mem_erase present)

theorem join (total : ∑ holder ∈ holders, weight holder = shares) (fresh : tokenID ∉ holders)
    (share : ℕ) (here : marks' tokenID = (skimmed shares state).accumulator)
    (sameWeight : ∀ other ∈ holders, weight' other = weight other)
    (sameMark : ∀ other ∈ holders, marks' other = marks other) :
    Stream (insert tokenID holders) weight' marks' (skimmed shares state) (kept + share)
      (reserve + share) := by
  have spread : (skimmed shares state).slush + owed _ (skimmed shares state).accumulator _ _ _ ≤
      _ :=
    spread_le (by decide : 0 < 2 ^ 168) state.accumulator state.slush holders weight marks total
  have bound : (skimmed shares state).accumulator < 2 ^ 168 := Nat.mod_lt _ (by decide)
  have covered := stream.covered
  refine ⟨?_, bound, (forall_mem_insert _ _ _).mpr ⟨here ▸ bound, fun other present => ?_⟩⟩
  · rw [owed_join fresh here sameWeight sameMark, Nat.mul_add, Nat.mul_add]
    omega
  · rw [sameMark other present]
    exact stream.marks other present

theorem deposit (deposited : StakingNFT.deposit amount state = .ok state') :
    Stream holders weight marks state' kept (reserve + amount) := by
  obtain ⟨accumulatorEq, slushEq⟩ := deposit_ok deposited
  have covered := stream.covered
  refine ⟨?_, accumulatorEq ▸ stream.accumulator, stream.marks⟩
  rw [accumulatorEq, slushEq]
  unfold ACCUMULATOR_SCALE_FACTOR at *
  omega

end

end Stream

def EthStream (holders : Finset ℕ) (σ : Storage) : Prop :=
  Stream holders (fun tokenID => (σ.positions tokenID).shares) (fun tokenID =>
    (σ.positions tokenID).accumulatorEth) σ.ethState 0 σ.reserveEth

def TokenStream (holders : Finset ℕ) (σ : Storage) : Prop :=
  Stream holders (fun tokenID => (σ.positions tokenID).shares) (fun tokenID =>
    (σ.positions tokenID).accumulatorToken) σ.tokenState σ.shares σ.reserveToken

/-- The part of the invariant that is not about streams -/
structure Books (chain : Chain) (σ : Storage) : Prop where
  minted : ∀ tokenID, σ.owners tokenID ≠ none → tokenID ≤ σ.counter
  ownerNonzero : ∀ tokenID, σ.owners tokenID ≠ some 0
  backedEth : σ.reserveEth ≤ σ.ethBalance
  backedToken : σ.reserveToken ≤ σ.tokenBalance
  boundedEth : σ.ethBalance ≤ chain.ethSupply
  boundedToken : σ.tokenBalance ≤ chain.aTokenSupply

theorem Invariant.of_streams (lives : live σ = holders) (eth : EthStream holders σ)
    (token : TokenStream holders σ)
    (shares : σ.shares = ∑ tokenID ∈ holders, (σ.positions tokenID).shares)
    (books : Books chain σ) : Invariant chain σ := by
  subst lives
  have covered := eth.covered
  rw [Nat.mul_zero, Nat.zero_add] at covered
  exact { books with
    eth := covered, token := token.covered, shares, accumulatorEth := eth.accumulator
    accumulatorToken := token.accumulator, markEth := eth.marks, markToken := token.marks }

section

variable (inv : Invariant chain σ)

include inv

theorem Invariant.ethStream : EthStream (live σ) σ where
  covered := by
    rw [Nat.mul_zero, Nat.zero_add]
    exact inv.eth
  accumulator := inv.accumulatorEth
  marks := inv.markEth

theorem Invariant.tokenStream : TokenStream (live σ) σ :=
  ⟨inv.token, inv.accumulatorToken, inv.markToken⟩

theorem Invariant.books : Books chain σ := { inv with }

theorem Invariant.relock (same : (σ.positions tokenID).SameStake p) :
    Invariant chain { σ with positions := update σ.positions tokenID p } := by
  have sharesEq := apply_update_same σ.positions Position.shares same.1
  have ethEq := apply_update_same σ.positions Position.accumulatorEth same.2.1
  have tokenEq := apply_update_same σ.positions Position.accumulatorToken same.2.2
  exact .of_streams rfl (inv.ethStream.congr (fun other _ => sharesEq other) fun other _ =>
    ethEq other) (inv.tokenStream.congr (fun other _ => sharesEq other) fun other _ =>
    tokenEq other) (inv.shares.trans (sum_congr rfl fun other _ => (sharesEq other).symm))
    { inv.books with }

theorem Invariant.transfer (owned : σ.owners tokenID ≠ none) (nonzero : to_ ≠ 0) :
    Invariant chain { σ with owners := update σ.owners tokenID (some to_) } := by
  have sameLive : live { σ with owners := update σ.owners tokenID (some to_) } = live σ := by
    ext other
    simp only [live, mem_filter]
    by_cases here : other = tokenID
    · subst here
      simp [Option.isSome_iff_ne_none, owned]
    · simp [here]
  refine .of_streams sameLive inv.ethStream inv.tokenStream inv.shares { inv.books with
    minted := fun other present => ?_
    ownerNonzero := owner_update_ne inv.ownerNonzero (by simpa using nonzero) }
  by_cases here : other = tokenID
  · exact here ▸ inv.minted tokenID owned
  · exact inv.minted other (by simpa [here] using present)

theorem Invariant.collectEth (mem : tokenID ∈ live σ)
    (collected : collect σ.shares σ.ethState (σ.positions tokenID)
    (σ.positions tokenID).accumulatorEth =
      .ok (state, q, mark, payout)) (lower : σ.ethBalance - payout ≤ balance) (upper :
      balance ≤ σ.ethBalance) :
    Invariant chain { σ with
      ethState := state
      positions := update σ.positions tokenID { q with accumulatorEth := mark }
      reserveEth := σ.reserveEth - payout
      ethBalance := balance } := by
  obtain ⟨rfl, _, _, eth⟩ := inv.ethStream.pay inv.shares.symm mem collected rfl
  let p := { σ.positions tokenID with accumulatorEth := mark }
  have sharesEq := apply_update_same (p := p) σ.positions Position.shares rfl
  have tokenEq := apply_update_same (p := p) σ.positions Position.accumulatorToken rfl
  exact .of_streams rfl
    (eth.congr (fun other _ => sharesEq other)
      fun other _ => apply_update (fun _ => Position.accumulatorEth) σ.positions tokenID p other)
    (inv.tokenStream.congr (fun other _ => sharesEq other) fun other _ => tokenEq other)
    (inv.shares.trans (sum_congr rfl fun other _ => (sharesEq other).symm)) { inv.books with
      backedEth := (Nat.sub_le_sub_right inv.backedEth _).trans lower
      boundedEth := upper.trans inv.boundedEth }

theorem Invariant.collectToken (mem : tokenID ∈ live σ)
    (collected : collect σ.shares σ.tokenState (σ.positions tokenID)
    (σ.positions tokenID).accumulatorToken =
      .ok (state, q, mark, payout)) (lower : σ.tokenBalance - payout ≤ balance) (upper :
      balance ≤ σ.tokenBalance) :
    Invariant chain { σ with
      tokenState := state
      positions := update σ.positions tokenID { q with accumulatorToken := mark }
      reserveToken := σ.reserveToken - payout
      tokenBalance := balance } := by
  obtain ⟨rfl, _, _, token⟩ := inv.tokenStream.pay inv.shares.symm mem collected rfl
  let p := { σ.positions tokenID with accumulatorToken := mark }
  have sharesEq := apply_update_same (p := p) σ.positions Position.shares rfl
  have ethEq := apply_update_same (p := p) σ.positions Position.accumulatorEth rfl
  exact .of_streams rfl (inv.ethStream.congr (fun other _ => sharesEq other) fun other _ =>
    ethEq other) (token.congr (fun other _ => sharesEq other)
      fun other _ => apply_update (fun _ => Position.accumulatorToken) σ.positions tokenID p other)
    (inv.shares.trans (sum_congr rfl fun other _ => (sharesEq other).symm)) { inv.books with
      backedToken := (Nat.sub_le_sub_right inv.backedToken _).trans lower
      boundedToken := upper.trans inv.boundedToken }

end

theorem live_burn {σ σ' : Storage} (counter : σ'.counter = σ.counter)
    (owners : σ'.owners = update σ.owners tokenID none) : live σ' = (live σ).erase tokenID := by
  ext other
  simp only [live, mem_filter, mem_erase, counter, owners]
  by_cases here : other = tokenID
  · subst here
    simp
  · simp [here]

private theorem live_mint {σ σ' : Storage} (counter : σ'.counter = σ.counter + 1)
    (owners : σ'.owners = update σ.owners (σ.counter + 1) (some to_)) :
    live σ' = insert (σ.counter + 1) (live σ) := by
  ext other
  simp only [live, mem_filter, mem_insert, mem_range, counter, owners]
  by_cases here : other = σ.counter + 1
  · subst here
    simp
  · have older : other < σ.counter + 1 + 1 ↔ other < σ.counter + 1 := by omega
    simp [here, older]

section

variable (inv : Invariant chain σ)

include inv

theorem Invariant.burn (mem : tokenID ∈ live σ)
    (collectedEth : collect σ.shares σ.ethState (σ.positions tokenID)
    (σ.positions tokenID).accumulatorEth =
      .ok (ethState, q, ethMark, payoutEth))
    (collectedToken : collect σ.shares σ.tokenState { q with
    accumulatorEth := ethMark } q.accumulatorToken =
      .ok (tokenState, r, tokenMark, due))
    (lowerEth : σ.ethBalance - payoutEth ≤ ethBalance) (upperEth : ethBalance ≤ σ.ethBalance)
    (lowerToken : σ.tokenBalance - (due + r.shares) ≤ tokenBalance) (upperToken : tokenBalance ≤
      σ.tokenBalance) :
    Invariant chain { σ with
      shares := σ.shares - r.shares
      ethState, tokenState
      positions := update σ.positions tokenID ⟨0, 0, 0, 0, 0⟩
      reserveEth := σ.reserveEth - payoutEth
      reserveToken := σ.reserveToken - (due + r.shares)
      owners := update σ.owners tokenID none
      ethBalance, tokenBalance } := by
  obtain ⟨rfl, ethMarkEq, _, eth⟩ := inv.ethStream.pay inv.shares.symm mem collectedEth rfl
  obtain ⟨rfl, tokenMarkEq, _, token⟩ := inv.tokenStream.pay inv.shares.symm mem collectedToken rfl
  have total := sum_shares_erase mem
  rw [← inv.shares] at total
  have unchanged : ∀ other ∈ (live σ).erase tokenID,
      update σ.positions tokenID ⟨0, 0, 0, 0, 0⟩ other = σ.positions other :=
    fun other present => update_of_ne (ne_of_mem_erase present) _ _
  -- The position has taken all that it was owed, so that what is left is owed to the others.
  have restEth := eth.leave mem (by rw [update_self, ethMarkEq]) (Nat.zero_le 0)
  have restToken := token.leave mem (by rw [update_self, tokenMarkEq])
    (by omega : (σ.positions tokenID).shares ≤ σ.shares)
  rw [Nat.sub_sub] at restToken
  refine .of_streams (live_burn (σ := σ) rfl rfl) ?_ ?_ ?_ ⟨fun other owned => ?_,
    owner_update_ne inv.ownerNonzero (by simp),
      (Nat.sub_le_sub_right inv.backedEth _).trans lowerEth,
    (Nat.sub_le_sub_right inv.backedToken _).trans lowerToken, upperEth.trans inv.boundedEth,
    upperToken.trans inv.boundedToken⟩
  · refine restEth.congr (fun other present => congrArg Position.shares (unchanged other present))
      fun other present => ?_
    rw [update_of_ne (ne_of_mem_erase present)]
    exact congrArg Position.accumulatorEth (unchanged other present)
  · refine restToken.congr (fun other present => congrArg Position.shares (unchanged other present))
      fun other present => ?_
    rw [update_of_ne (ne_of_mem_erase present)]
    exact congrArg Position.accumulatorToken (unchanged other present)
  · refine (Nat.sub_eq_of_eq_add' total).trans (sum_congr rfl fun other present => ?_)
    exact congrArg Position.shares (unchanged other present).symm
  · by_cases here : other = tokenID
    · subst here
      simp at owned
    · exact inv.minted other (by simpa [here] using owned)

theorem Invariant.mint (available : σ.tokenBalance + amount ≤ chain.aTokenSupply)
    (freeAfter : ℕ) (nonzero : recipient ≠ 0) :
    Invariant chain { σ with
      counter := σ.counter + 1
      shares := σ.shares + amount
      ethState := skimmed σ.shares σ.ethState
      tokenState := skimmed σ.shares σ.tokenState
      positions := update σ.positions (σ.counter + 1)
        ⟨amount, freeAfter, freeAfter, (skimmed σ.shares σ.ethState).accumulator,
          (skimmed σ.shares σ.tokenState).accumulator⟩
      reserveToken := σ.reserveToken + amount
      owners := update σ.owners (σ.counter + 1) (some recipient)
      tokenBalance := σ.tokenBalance + amount } := by
  have fresh := not_mem_live_next σ
  let position : Position :=
    ⟨amount, freeAfter, freeAfter, (skimmed σ.shares σ.ethState).accumulator,
    (skimmed σ.shares σ.tokenState).accumulator⟩
  have unchanged : ∀ other ∈ live σ, update σ.positions (σ.counter + 1) position other =
      σ.positions other := by
    intro other present
    exact update_of_ne (fun same : other = σ.counter + 1 => fresh (same ▸ present)) _ _
  have here : update σ.positions (σ.counter + 1) position (σ.counter + 1) = position :=
    update_self ..
  refine .of_streams (live_mint (σ := σ) rfl rfl) ?_ ?_ ?_ { inv.books with
    minted := fun other owned => ?_
    ownerNonzero := owner_update_ne inv.ownerNonzero (by simpa using nonzero)
    backedToken := Nat.add_le_add_right inv.backedToken amount
    boundedToken := available }
  · exact inv.ethStream.join inv.shares.symm fresh 0 (congrArg Position.accumulatorEth here)
      (fun other present => congrArg Position.shares (unchanged other present))
      fun other present => congrArg Position.accumulatorEth (unchanged other present)
  · exact inv.tokenStream.join inv.shares.symm fresh amount
      (congrArg Position.accumulatorToken here)
      (fun other present => congrArg Position.shares (unchanged other present))
      fun other present => congrArg Position.accumulatorToken (unchanged other present)
  · rw [sum_insert fresh]
    refine (Nat.add_comm σ.shares amount).trans
      (congrArg₂ (· + ·) (congrArg Position.shares here.symm) ?_)
    refine inv.shares.trans (sum_congr rfl fun other present => ?_)
    exact congrArg Position.shares (unchanged other present).symm
  · by_cases same : other = σ.counter + 1
    · exact same.le
    · exact (inv.minted other (by simpa [same] using owned)).trans (Nat.le_succ _)

theorem Invariant.depositEth (funded : σ.ethBalance + value ≤ chain.ethSupply)
    (deposited : deposit value σ.ethState = .ok state) :
    Invariant chain { σ with
      ethBalance := σ.ethBalance + value, ethState := state, reserveEth := σ.reserveEth + value } :=
  .of_streams rfl (inv.ethStream.deposit deposited) inv.tokenStream inv.shares { inv.books with
    backedEth := Nat.add_le_add_right inv.backedEth value
    boundedEth := funded }

theorem Invariant.depositToken (funded : σ.tokenBalance + amount ≤ chain.aTokenSupply)
    (deposited : deposit amount σ.tokenState = .ok state) :
    Invariant chain { σ with
      tokenBalance := σ.tokenBalance + amount, tokenState := state, reserveToken :=
        σ.reserveToken + amount } :=
  .of_streams rfl inv.ethStream (inv.tokenStream.deposit deposited) inv.shares { inv.books with
    backedToken := Nat.add_le_add_right inv.backedToken amount
    boundedToken := funded }

theorem Invariant.collectEthTo
    (ran : collectEthTo chain σ msg recipient tokenID = .ok (σ', payout)) : Invariant chain σ' := by
  obtain ⟨state, q, mark, balance, owned, collected, _, lower, upper, rfl⟩ := collectEthTo_ok ran
  exact inv.collectEth ((mem_live_iff inv).mpr owned) collected lower upper

theorem Invariant.collectTokenTo
    (ran : collectTokenTo chain σ msg recipient tokenID = .ok (σ', payout)) :
    Invariant chain σ' := by
  obtain ⟨state, q, mark, balance, owned, collected, _, lower, upper, rfl⟩ := collectTokenTo_ok ran
  exact inv.collectToken ((mem_live_iff inv).mpr owned) collected lower upper

theorem Invariant.collectAllProfitsTo
    (ran : collectAllProfitsTo chain σ msg recipient tokenID = .ok (σ', payouts)) :
    Invariant chain σ' := by
  unfold StakingNFT.collectAllProfitsTo at ran
  simp only [ok_iff, Prod.mk.injEq] at ran
  obtain ⟨⟨σ₁, payoutToken⟩, token, ⟨σ₂, payoutEth⟩, eth, rfl, _⟩ := ran
  exact (inv.collectTokenTo token).collectEthTo eth

theorem Invariant.burnNFT (ran : burnNFT chain σ msg sender recipient tokenID = .ok (σ', payouts)) :
    Invariant chain σ' := by
  obtain ⟨payoutEth, payoutToken⟩ := payouts
  obtain ⟨ethState, q, ethMark, tokenState, r, tokenMark, due, ethBalance, tokenBalance, owned,
    collectedEth, collectedToken, rfl, _, _, _, lowerEth, upperEth, lowerToken, upperToken, rfl⟩ :=
    burnNFT_ok ran
  exact inv.burn ((mem_live_iff inv).mpr (by simp [owned])) collectedEth collectedToken
    lowerEth upperEth lowerToken upperToken

theorem Invariant.mintNFT (funded : msg.Funded chain σ)
    (ran : mintNFT chain σ msg recipient amount = .ok (σ', tokenID)) : Invariant chain σ' := by
  obtain ⟨_, nonzero, available, freeAfter, rfl⟩ :=
    mintNFT_ok ran funded inv.accumulatorEth inv.accumulatorToken
  exact inv.mint available freeAfter nonzero

theorem Invariant.mintTo (funded : msg.Funded chain σ)
    (ran : mintTo chain σ msg recipient amount lockDuration = .ok (σ', tokenID)) :
    Invariant chain σ' := by
  unfold StakingNFT.mintTo at ran
  simp only [bind_ok_iff] at ran
  obtain ⟨_, _, _, _, ⟨σ₁, minted⟩, minting, locking⟩ := ran
  have opened := inv.mintNFT funded minting
  split at locking
  · simp only [ok_iff, Prod.mk.injEq] at locking
    obtain ⟨⟨σ₂, shares⟩, locked, rfl, _⟩ := locking
    obtain ⟨p, same, rfl⟩ := lockPositionInternal_ok locked
    exact opened.relock same
  · simp only [pure_ok_iff, Prod.mk.injEq] at locking
    exact locking.1 ▸ opened

theorem Invariant.exec (funded : msg.Funded chain σ) (call : Call)
    (ran : exec chain σ msg call = .ok σ') : Invariant chain σ' := by
  cases call with
  | mint amount =>
    simp only [StakingNFT.exec, bind_ok_iff, map_ok_iff] at ran
    obtain ⟨_, _, ⟨σ₁, tokenID⟩, minted, rfl⟩ := ran
    exact inv.mintNFT funded minted
  | mintTo to_ amount lockDuration =>
    obtain ⟨⟨σ₁, tokenID⟩, minted, rfl⟩ := map_ok_iff.mp ran
    exact inv.mintTo funded minted
  | burn tokenID | burnTo to_ tokenID =>
    obtain ⟨⟨σ₁, payouts⟩, burned, rfl⟩ := map_ok_iff.mp ran
    exact inv.burnNFT burned
  | collectEth tokenID | collectEthTo to_ tokenID =>
    obtain ⟨⟨σ₁, payout⟩, collected, rfl⟩ := map_ok_iff.mp ran
    exact inv.collectEthTo collected
  | collectToken tokenID | collectTokenTo to_ tokenID =>
    obtain ⟨⟨σ₁, payout⟩, collected, rfl⟩ := map_ok_iff.mp ran
    exact inv.collectTokenTo collected
  | collectAllProfits tokenID | collectAllProfitsTo to_ tokenID =>
    obtain ⟨⟨σ₁, payouts⟩, collected, rfl⟩ := map_ok_iff.mp ran
    exact inv.collectAllProfitsTo collected
  | depositEth magic =>
    simp only [StakingNFT.exec, StakingNFT.depositEth, ok_iff, add256, Word.add_ok_iff] at ran
    obtain ⟨_, _, _, _, state, deposited, _, ⟨_, rfl⟩, rfl⟩ := ran
    exact inv.depositEth funded.1 deposited
  | depositToken magic amount =>
    simp only [StakingNFT.exec, StakingNFT.depositToken, ok_iff, add256, Word.add_ok_iff] at ran
    obtain ⟨_, _, _, _, σ₁, pulled, state, deposited, _, ⟨_, rfl⟩, rfl⟩ := ran
    obtain ⟨rfl, available⟩ := safeTransferFromERC20_ok pulled funded
    exact inv.depositToken available deposited
  | lockPosition caller tokenID lockDuration =>
    simp only [StakingNFT.exec, StakingNFT.lockPosition, map_ok_iff, bind_ok_iff] at ran
    obtain ⟨⟨σ₁, shares⟩, ⟨_, _, _, _, _, _, locked⟩, rfl⟩ := ran
    obtain ⟨p, same, rfl⟩ := lockPositionInternal_ok locked
    exact inv.relock same
  | lockOwnPosition tokenID lockDuration =>
    simp only [StakingNFT.exec, StakingNFT.lockOwnPosition, map_ok_iff, bind_ok_iff] at ran
    obtain ⟨⟨σ₁, shares⟩, ⟨_, _, _, _, locked⟩, rfl⟩ := ran
    obtain ⟨p, same, rfl⟩ := lockPositionInternal_ok locked
    exact inv.relock same
  | lockWithdraw tokenID lockDuration =>
    simp only [StakingNFT.exec, StakingNFT.lockWithdraw, map_ok_iff, bind_ok_iff] at ran
    obtain ⟨⟨σ₁, shares⟩, ⟨_, _, _, _, locked⟩, rfl⟩ := ran
    obtain ⟨p, same, rfl⟩ := lockWithdrawInternal_ok locked
    exact inv.relock same
  | tripCB =>
    simp only [StakingNFT.exec, StakingNFT.tripCB, ok_iff] at ran
    obtain ⟨_, _, _, _, rfl⟩ := ran
    exact { inv with }
  | skimExcessEth to_ =>
    simp only [StakingNFT.exec, StakingNFT.skimExcessEth, ok_iff] at ran
    obtain ⟨_, _, _, backed, sent⟩ := ran
    obtain ⟨_, balance, lower, upper, rfl⟩ := safeTransferEth_ok sent
    exact { inv with
      backedEth := by
        change σ.reserveEth ≤ balance
        omega
      boundedEth := upper.trans inv.boundedEth }
  | skimExcessToken to_ =>
    simp only [StakingNFT.exec, StakingNFT.skimExcessToken, ok_iff] at ran
    obtain ⟨_, _, _, backed, sent⟩ := ran
    obtain ⟨_, balance, lower, upper, rfl⟩ := safeTransferERC20_ok sent
    exact { inv with
      backedToken := by
        change σ.reserveToken ≤ balance
        omega
      boundedToken := upper.trans inv.boundedToken }

theorem Invariant.step (step : Step chain σ σ') : Invariant chain σ' := by
  cases step with
  | call msg call funded ran => exact inv.exec funded call ran
  | transfer tokenID to_ owned nonzero => exact inv.transfer owned nonzero
  | receive eth token ethFunded tokenFunded =>
    exact { inv with
      backedEth := inv.backedEth.trans (Nat.le_add_right _ _)
      backedToken := inv.backedToken.trans (Nat.le_add_right _ _)
      boundedEth := ethFunded
      boundedToken := tokenFunded }

end

private theorem initial_solvent : Solvent initial := by
  constructor <;> simp [initial, owedEth, owedToken, owed, live]

private theorem initial_invariant (chain : Chain) : Invariant chain initial := by
  constructor
  · exact initial_solvent
  all_goals simp [initial, live]

theorem Reachable.invariant (reachable : Reachable chain σ) : Invariant chain σ := by
  induction reachable with
  | refl => exact initial_invariant chain
  | tail _ step ih => exact ih.step step

end AliceNet.Bridge.StakingNFT
