import AliceNet.Bridge.StakingOperations

/-! Ownership of staking positions. -/

namespace AliceNet.Bridge.StakingNFT

open Outcome Function

/-- What a call of `sender` can do to the owners of positions. -/
inductive Moved (sender : Address) (σ σ' : Storage) : Prop
  | same (counter : σ'.counter = σ.counter) (owners : σ'.owners = σ.owners)
  | issued (to_ : Address) (counter : σ'.counter = σ.counter + 1)
      (unused : σ.owners (σ.counter + 1) = none)
      (owners : σ'.owners = Function.update σ.owners (σ.counter + 1) (some to_))
  | burnt (tokenID : ℕ) (owned : σ.owners tokenID = some sender) (counter : σ'.counter = σ.counter)
      (owners : σ'.owners = Function.update σ.owners tokenID none)

theorem Moved.of_same (same : σ'.counter = σ.counter ∧ σ'.owners = σ.owners) : Moved sender σ σ' :=
  .same same.1 same.2

/-- Every position has a number that was issued. -/
def Minted (σ : Storage) : Prop := ∀ tokenID, σ.owners tokenID ≠ none → tokenID ≤ σ.counter

theorem Moved.kept (moved : Moved sender σ σ') (owned : σ.owners tokenID = some owner)
    (other : owner ≠ sender) : σ'.owners tokenID = some owner := by
  cases moved with
  | same _ owners => rw [owners, owned]
  | issued to_ _ unused owners =>
    rw [owners, update_of_ne, owned]
    rintro rfl
    rw [unused] at owned
    cases owned
  | burnt burnt mine _ owners =>
    rw [owners, update_of_ne, owned]
    rintro rfl
    exact other (Option.some.inj (owned.symm.trans mine))

theorem Moved.minted (moved : Moved sender σ σ') (minted : Minted σ) : Minted σ' := by
  intro tokenID owned
  cases moved with
  | same counter owners =>
    rw [owners] at owned
    exact counter ▸ minted tokenID owned
  | issued to_ counter _ owners =>
    rw [owners] at owned
    rw [counter]
    by_cases new : tokenID = σ.counter + 1
    · exact new.le
    · rw [update_of_ne new] at owned
      exact (minted tokenID owned).trans (Nat.le_succ _)
  | burnt burnt _ counter owners =>
    rw [owners] at owned
    by_cases gone : tokenID = burnt
    · rw [gone, update_self] at owned
      exact absurd rfl owned
    · rw [update_of_ne gone] at owned
      exact counter ▸ minted tokenID owned

private theorem skimBoth_moved (ran : skimBoth σ = .ok σ') :
    σ'.counter = σ.counter ∧ σ'.owners = σ.owners := by
  unfold skimBoth at ran
  split at ran
  · simp only [ok_iff'] at ran
    obtain ⟨_, _, _, _, _, _, rfl⟩ := ran
    exact ⟨rfl, rfl⟩
  · obtain rfl := pure_ok_iff.mp ran
    exact ⟨rfl, rfl⟩

theorem safeTransferFromERC20_moved (ran : safeTransferFromERC20 chain σ msg amount = .ok σ') :
    σ'.counter = σ.counter ∧ σ'.owners = σ.owners := by
  unfold safeTransferFromERC20 at ran
  split at ran
  · obtain rfl := pure_ok_iff.mp ran
    exact ⟨rfl, rfl⟩
  · simp only [ok_iff] at ran
    obtain ⟨_, _, _, _, rfl⟩ := ran
    exact ⟨rfl, rfl⟩

theorem mintNFT_moved (ran : mintNFT chain σ msg to_ amount = .ok (σ', tokenID)) :
    tokenID = σ.counter + 1 ∧ σ'.counter = σ.counter + 1 ∧ σ.owners (σ.counter + 1) = none ∧
      σ'.owners = Function.update σ.owners (σ.counter + 1) (some to_) := by
  simp only [mintNFT, erc721Mint, add256, ok_iff', Word.add_ok_iff] at ran
  obtain ⟨_, _, _, paid, _, ⟨_, rfl⟩, _, skimmed, _, _, _, _, _, _, _, ⟨_, unused, rfl⟩, rfl,
    rfl⟩ := ran
  obtain ⟨counter, owners⟩ := safeTransferFromERC20_moved paid
  obtain ⟨counter', owners'⟩ := skimBoth_moved skimmed
  simp only [owners', owners, counter', counter] at unused ⊢
  exact ⟨trivial, trivial, unused, trivial⟩

theorem burnNFT_moved
    (ran : burnNFT chain σ msg sender to_ tokenID = .ok (σ', payoutEth, payoutToken)) :
    σ.owners tokenID = some sender ∧ σ'.counter = σ.counter ∧
      σ'.owners = Function.update σ.owners tokenID none := by
  obtain ⟨_, _, _, _, _, _, _, _, _, owned, _, _, _, _, _, _, _, _, _, _, rfl⟩ := burnNFT_ok ran
  exact ⟨owned, rfl, rfl⟩

theorem lockPositionInternal_moved
    (ran : lockPositionInternal σ msg tokenID duration = .ok (σ', locked)) :
    σ'.counter = σ.counter ∧ σ'.owners = σ.owners := by
  obtain ⟨_, _, rfl⟩ := lockPositionInternal_ok ran
  exact ⟨rfl, rfl⟩

private theorem mintTo_moved
    (ran : mintTo chain σ msg to_ amount lockDuration = .ok (σ', tokenID)) : Moved sender σ σ' := by
  simp only [mintTo, bind_ok_iff, Prod.exists] at ran
  obtain ⟨_, _, _, _, τ, _, minted, ran⟩ := ran
  obtain ⟨_, counter, unused, owners⟩ := mintNFT_moved minted
  split at ran
  · simp only [ok_iff'] at ran
    obtain ⟨_, _, locked, rfl, _⟩ := ran
    obtain ⟨counter', owners'⟩ := lockPositionInternal_moved locked
    exact .issued to_ (counter'.trans counter) unused (owners'.trans owners)
  · obtain ⟨rfl, _⟩ := Prod.mk.inj (pure_ok_iff.mp ran)
    exact .issued to_ counter unused owners

theorem collectEthTo_moved (ran : collectEthTo chain σ msg to_ tokenID = .ok (σ', payout)) :
    σ'.counter = σ.counter ∧ σ'.owners = σ.owners := by
  obtain ⟨_, _, _, _, _, _, _, _, _, rfl⟩ := collectEthTo_ok ran
  exact ⟨rfl, rfl⟩

theorem collectTokenTo_moved (ran : collectTokenTo chain σ msg to_ tokenID = .ok (σ', payout)) :
    σ'.counter = σ.counter ∧ σ'.owners = σ.owners := by
  obtain ⟨_, _, _, _, _, _, _, _, _, rfl⟩ := collectTokenTo_ok ran
  exact ⟨rfl, rfl⟩

private theorem collectAllProfitsTo_moved
    (ran : collectAllProfitsTo chain σ msg to_ tokenID = .ok (σ', payouts)) :
    σ'.counter = σ.counter ∧ σ'.owners = σ.owners := by
  simp only [collectAllProfitsTo, ok_iff'] at ran
  obtain ⟨_, _, tokens, _, _, eth, rfl, _⟩ := ran
  obtain ⟨counter, owners⟩ := collectTokenTo_moved tokens
  obtain ⟨counter', owners'⟩ := collectEthTo_moved eth
  exact ⟨counter'.trans counter, owners'.trans owners⟩

theorem depositToken_moved (ran : depositToken chain σ msg magic amount = .ok σ') :
    σ'.counter = σ.counter ∧ σ'.owners = σ.owners := by
  simp only [depositToken, ok_iff] at ran
  obtain ⟨_, _, _, _, _, paid, _, _, _, _, rfl⟩ := ran
  have moved := safeTransferFromERC20_moved paid
  exact moved

theorem lockOwnPosition_moved
    (ran : lockOwnPosition σ msg tokenID lockDuration = .ok (σ', locked)) :
    σ'.counter = σ.counter ∧ σ'.owners = σ.owners := by
  simp only [lockOwnPosition, bind_ok_iff] at ran
  obtain ⟨_, _, _, _, locked⟩ := ran
  exact lockPositionInternal_moved locked

theorem exec_moved (ran : exec chain σ msg call = .ok σ') : Moved msg.sender σ σ' := by
  cases call with
  | mint amount =>
    simp only [exec, ok_iff'] at ran
    obtain ⟨_, _, _, _, minted, rfl⟩ := ran
    obtain ⟨_, counter, unused, owners⟩ := mintNFT_moved minted
    exact .issued _ counter unused owners
  | mintTo to_ amount lockDuration =>
    obtain ⟨⟨_, _⟩, minted, rfl⟩ := map_ok_iff.mp ran
    exact mintTo_moved minted
  | burn tokenID | burnTo to_ tokenID =>
    obtain ⟨⟨_, _, _⟩, burnt, rfl⟩ := map_ok_iff.mp ran
    obtain ⟨owned, counter, owners⟩ := burnNFT_moved burnt
    exact .burnt tokenID owned counter owners
  | collectEth tokenID | collectEthTo to_ tokenID =>
    obtain ⟨⟨_, _⟩, collected, rfl⟩ := map_ok_iff.mp ran
    exact .of_same (collectEthTo_moved collected)
  | collectToken tokenID | collectTokenTo to_ tokenID =>
    obtain ⟨⟨_, _⟩, collected, rfl⟩ := map_ok_iff.mp ran
    exact .of_same (collectTokenTo_moved collected)
  | collectAllProfits tokenID | collectAllProfitsTo to_ tokenID =>
    obtain ⟨⟨_, _⟩, collected, rfl⟩ := map_ok_iff.mp ran
    exact .of_same (collectAllProfitsTo_moved collected)
  | depositEth magic =>
    simp only [exec, depositEth, ok_iff] at ran
    obtain ⟨_, _, _, _, _, _, _, _, rfl⟩ := ran
    exact .same rfl rfl
  | depositToken magic amount => exact .of_same (depositToken_moved ran)
  | lockPosition caller tokenID lockDuration =>
    simp only [exec, lockPosition, map_ok_iff, bind_ok_iff, Prod.exists] at ran
    obtain ⟨_, _, ⟨_, _, _, _, _, _, locked⟩, rfl⟩ := ran
    exact .of_same (lockPositionInternal_moved locked)
  | lockOwnPosition tokenID lockDuration =>
    obtain ⟨⟨_, _⟩, locked, rfl⟩ := map_ok_iff.mp ran
    exact .of_same (lockOwnPosition_moved locked)
  | lockWithdraw tokenID lockDuration =>
    simp only [exec, lockWithdraw, ok_iff'] at ran
    obtain ⟨_, _, ⟨_, _, _, _, locked⟩, rfl⟩ := ran
    obtain ⟨_, _, rfl⟩ := lockWithdrawInternal_ok locked
    exact .same rfl rfl
  | tripCB =>
    simp only [exec, tripCB, ok_iff] at ran
    obtain ⟨_, _, _, _, rfl⟩ := ran
    exact .same rfl rfl
  | skimExcessEth to_ =>
    simp only [exec, skimExcessEth, bind_ok_iff] at ran
    obtain ⟨_, _, _, _, sent⟩ := ran
    obtain ⟨_, _, _, _, rfl⟩ := safeTransferEth_ok sent
    exact .same rfl rfl
  | skimExcessToken to_ =>
    simp only [exec, skimExcessToken, bind_ok_iff] at ran
    obtain ⟨_, _, _, _, sent⟩ := ran
    obtain ⟨_, _, _, _, rfl⟩ := safeTransferERC20_ok sent
    exact .same rfl rfl

end AliceNet.Bridge.StakingNFT
