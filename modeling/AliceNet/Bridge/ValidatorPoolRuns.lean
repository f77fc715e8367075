import AliceNet.Bridge.ValidatorRegistry

/-! Runs of the validator pool among the staking contracts. -/

namespace AliceNet.Bridge.ValidatorPool

open IndexedList Outcome
open Function
open ValidatorDataMap

variable {contract : Contract} {w w' : World} {msg : Msg}

@[simp] theorem books_setStaking (w : World) (stake : Stake) (σ : StakingNFT.Storage) :
    (w.setStaking stake σ).books =
      { w.books with
        owners := update w.books.owners stake σ.owners
        counter := update w.books.counter stake σ.counter } := by
  simp only [World.books, World.setStaking, Books.mk.injEq, true_and]
  constructor
  all_goals
    funext other
    by_cases same : other = stake
    · subst same
      rw [update_self, update_self]
    · rw [update_of_ne same, update_of_ne same]

theorem books_setStaking_same (counter : σ.counter = (w.staking stake).counter)
    (owners : σ.owners = (w.staking stake).owners) : (w.setStaking stake σ).books = w.books := by
  rw [books_setStaking, counter, owners]
  exact congrArg₂ (Books.mk w.pool) (update_eq_self stake w.books.owners)
    (update_eq_self stake w.books.counter)

theorem mintPosition_ok (ran : mintPosition contract w msg stake minerShares = .ok (w', tokenID)) :
    w'.books = w.books.issue stake contract.self ∧ tokenID = w.books.counter stake + 1 := by
  simp only [mintPosition, ok_iff'] at ran
  obtain ⟨_, _, σ, _, minted, rfl, rfl⟩ := ran
  obtain ⟨named, counter, _, owners⟩ := StakingNFT.mintNFT_moved minted
  refine ⟨?_, named⟩
  show (w.setStaking stake σ).books = _
  rw [books_setStaking, counter, owners]
  rfl

theorem burnPosition_ok
    (ran : burnPosition contract w msg stake tokenID = .ok (w', payoutEth, payoutToken)) :
    w.books.owners stake tokenID = some contract.self ∧
      w'.books = w.books.retire stake tokenID := by
  simp only [burnPosition, ok_iff'] at ran
  obtain ⟨σ, _, _, burnt, rfl, _, _⟩ := ran
  obtain ⟨owned, counter, owners⟩ := StakingNFT.burnNFT_moved burnt
  refine ⟨owned, ?_⟩
  show (w.setStaking stake σ).books = _
  rw [books_setStaking, counter, owners]
  exact congrArg (Books.mk w.pool _) (update_eq_self stake w.books.counter)

theorem transferPosition_ok (ran : transferPosition contract w msg sender to_ tokenID = .ok w') :
    w.books.owners .publicStaking tokenID = some sender ∧
      w'.books = w.books.hand .publicStaking tokenID to_ := by
  simp only [transferPosition, ok_iff'] at ran
  obtain ⟨owner, found, _, rfl, _, _, rfl⟩ := ran
  refine ⟨StakingNFT.ownerOf_ok found, ?_⟩
  rw [books_setStaking]
  exact congrArg (Books.mk w.pool _) (update_eq_self _ w.books.counter)

private theorem collectTo_ok (ran : collectTo contract w msg to_ tokenID = .ok (w', payouts)) :
    w'.books = w.books := by
  simp only [collectTo, ok_iff'] at ran
  obtain ⟨_, _, eth, _, _, tokens, rfl, _⟩ := ran
  obtain ⟨counter, owners⟩ := StakingNFT.collectEthTo_moved eth
  obtain ⟨counter', owners'⟩ := StakingNFT.collectTokenTo_moved tokens
  exact books_setStaking_same (counter'.trans counter) (owners'.trans owners)

private theorem depositToken_ok (ran : depositToken contract w msg minerShares = .ok w') :
    w'.books = w.books := by
  simp only [depositToken, ok_iff'] at ran
  obtain ⟨σ, deposited, rfl⟩ := ran
  obtain ⟨counter, owners⟩ := StakingNFT.depositToken_moved deposited
  have same := books_setStaking_same counter owners
  exact same

private theorem lockOwnPosition_ok (ran : lockOwnPosition contract w msg tokenID = .ok w') :
    w'.books = w.books := by
  simp only [lockOwnPosition, ok_iff'] at ran
  obtain ⟨_, _, locked, rfl⟩ := ran
  obtain ⟨counter, owners⟩ := StakingNFT.lockOwnPosition_moved locked
  exact books_setStaking_same counter owners

theorem safeTransferERC20_ok (ran : safeTransferERC20 contract w to_ amount = .ok w') :
    w'.books = w.books := by
  unfold safeTransferERC20 at ran
  split at ran
  · rw [pure_ok_iff.mp ran]
  · simp only [ok_iff] at ran
    obtain ⟨_, _, _, _, rfl⟩ := ran
    rfl

theorem safeTransferEth_ok (ran : safeTransferEth contract w msg to_ amount = .ok w') :
    w'.books = w.books := by
  unfold safeTransferEth at ran
  split at ran
  · rw [pure_ok_iff.mp ran]
  · simp only [ok_iff] at ran
    obtain ⟨_, _, _, _, rfl⟩ := ran
    rfl

theorem transferEthAndTokens_ok
    (ran : transferEthAndTokens contract w msg to_ payoutEth payoutToken = .ok w') :
    w'.books = w.books := by
  obtain ⟨_, tokens, eth⟩ := bind_ok_iff.mp ran
  exact (safeTransferEth_ok eth).trans (safeTransferERC20_ok tokens)

theorem balanceShouldNotChange_ok {body : World → Except Revert (World × α)}
    (ran : balanceShouldNotChange w body = .ok (w', result)) : body w = .ok (w', result) := by
  simp only [balanceShouldNotChange, ok_iff'] at ran
  obtain ⟨_, _, done, _, _, rfl, rfl⟩ := ran
  exact done

private theorem swapPublicStakingForValidatorStaking_ok
    (ran : swapPublicStakingForValidatorStaking contract w msg to_ stakerTokenID =
      .ok (w', validatorTokenID, payoutEth, payoutToken)) :
    w.books.owners .publicStaking stakerTokenID = some to_ ∧
      validatorTokenID = w.books.counter .validatorStaking + 1 ∧
      w'.books = (w.books.retire .publicStaking stakerTokenID).issue .validatorStaking
        contract.self := by
  simp only [swapPublicStakingForValidatorStaking, sub256, ok_iff', Word.sub_ok_iff] at ran
  obtain ⟨_, _, _, _, transferred, _, _, _, burnt, _, _, _, _, _, minted, rfl, rfl, _⟩ := ran
  obtain ⟨owned, handed⟩ := transferPosition_ok transferred
  obtain ⟨_, retired⟩ := burnPosition_ok burnt
  obtain ⟨issued, named⟩ := mintPosition_ok minted
  -- handing the position over and then burning it is burning it
  have same : (w.books.hand .publicStaking stakerTokenID contract.self).retire .publicStaking
      stakerTokenID = w.books.retire .publicStaking stakerTokenID := by
    simp [Books.hand, Books.retire]
  rw [handed, same] at retired
  rw [retired] at issued named
  exact ⟨owned, named, issued⟩

theorem burnNFTPosition_ok
    (ran : burnNFTPosition contract w msg stake tokenID = .ok (w', payouts)) :
    w.books.owners stake tokenID = some contract.self ∧
      w'.books = w.books.retire stake tokenID := by
  simp only [burnNFTPosition, ok_iff'] at ran
  obtain ⟨_, _, _, _, _, burnt, rfl, _⟩ := ran
  exact burnPosition_ok burnt

private theorem isAccusable_eq_false (free : isAccusable s account = false) :
    s.validators.indexes account = 0 ∧ (s.exitingValidatorsData account).freeAfter = 0 := by
  simp only [isAccusable, isValidator, isInExitingQueue, Bool.or_eq_false_iff,
    decide_eq_false_iff_not] at free
  exact ⟨contains_eq_false.mp free.1, Nat.eq_zero_of_not_pos free.2⟩

private theorem leaveValidators_ok (reg : Registry holder b) (mem : data ∈ b.pool.validators.values)
    (ran : moveToExitingQueue b.pool msg data.address stakeTokenID = .ok pool) :
    ∃ left, removeValidatorData b.pool data.address = .ok left ∧
      pool = { left with
        exitingValidatorsData := update left.exitingValidatorsData data.address
          ⟨stakeTokenID % 2 ^ 128, (msg.getEpoch.toNat + CLAIM_PERIOD) % 2 ^ 128⟩ } := by
  have present := reg.ordered.index_ne_zero_iff.mpr ⟨data, mem, rfl⟩
  have listed : isValidator b.pool data.address = true := contains_eq_true.mpr present
  simp only [moveToExitingQueue, leaveValidators, listed, if_true, ok_iff] at ran
  obtain ⟨left, removed, rfl⟩ := ran
  exact ⟨left, removed, rfl⟩

private theorem removeValidatorData_ok (reg : Registry holder b)
    (mem : data ∈ b.pool.validators.values)
    (removed : removeValidatorData b.pool data.address = .ok left) :
    left.validators.indexes data.address = 0 ∧ left.exitingValidatorsData =
      b.pool.exitingValidatorsData ∧
      left.validators.values.length + 1 = b.pool.validators.values.length := by
  simp only [removeValidatorData, ok_iff'] at removed
  obtain ⟨map, _, removed, rfl⟩ := removed
  have present := reg.ordered.index_ne_zero_iff.mpr ⟨data, mem, rfl⟩
  obtain ⟨v, last, i, found, _, ends, values, indexes⟩ := remove_ok reg.ordered present removed
  have length := (swapPop_perm found ends).length_eq
  rw [← values] at length
  refine ⟨?_, rfl, length⟩
  simp only [indexes, update_self]

section

variable (reg : Registry contract.self w.books)

include reg

theorem burnValidatorStakingPosition_ok
    (ran : burnValidatorStakingPosition contract w msg validator = .ok (w', payouts)) :
    ∃ data ∈ w.pool.validators.values, data.address = validator ∧
      w'.books = w.books.retire .validatorStaking data.tokenID := by
  obtain ⟨data, found, burnt⟩ := bind_ok_iff.mp ran
  obtain ⟨mem, named⟩ := get_ok reg.ordered found
  exact ⟨data, mem, named, (burnNFTPosition_ok burnt).2⟩

private theorem swapValidatorStakingForPublicStaking_ok
    (ran : swapValidatorStakingForPublicStaking contract w msg validator =
      .ok (w', stakeTokenID, payouts)) :
    ∃ data ∈ w.pool.validators.values, data.address = validator ∧
      stakeTokenID = w.books.counter .publicStaking + 1 ∧
      w'.books = (w.books.retire .validatorStaking data.tokenID).issue .publicStaking
        contract.self := by
  simp only [swapValidatorStakingForPublicStaking, sub256, ok_iff', Word.sub_ok_iff] at ran
  obtain ⟨_, _, _, _, burnt, _, _, _, _, _, minted, rfl, rfl, _⟩ := ran
  obtain ⟨data, mem, named, retired⟩ := burnValidatorStakingPosition_ok reg burnt
  obtain ⟨issued, numbered⟩ := mintPosition_ok minted
  rw [retired] at issued numbered
  exact ⟨data, mem, named, numbered, issued⟩

private theorem registerValidator_registry (foreign : msg.sender ≠ contract.self)
    (ran : registerValidator contract w msg validator stakerTokenID = .ok (w', result)) :
    Registry contract.self w'.books := by
  have ran := balanceShouldNotChange_ok ran
  simp only [registerBody, ok_iff'] at ran
  obtain ⟨room, free, v, _, _, _, swapped, _, paid, rfl, _⟩ := ran
  obtain ⟨absent, idle⟩ := isAccusable_eq_false free
  obtain ⟨owned, rfl, books⟩ := swapPublicStakingForValidatorStaking_ok swapped
  have pool : v.pool = w.pool := congrArg Books.pool books
  have entered := (reg.retireForeign owned foreign).enter room absent idle
  rw [transferEthAndTokens_ok paid]
  rw [← books] at entered
  rw [pool]
  exact entered

theorem requeue_registry {v : World} (mem : data ∈ w.pool.validators.values)
    (fits : w.books.counter .publicStaking + 1 < 2 ^ 128)
    (books : v.books = (w.books.retire .validatorStaking data.tokenID).issue .publicStaking
      contract.self)
    (moved : moveToExitingQueue v.pool msg data.address (w.books.counter .publicStaking + 1) =
      .ok pool) :
    Registry contract.self { v.books with pool } ∧ pool.validators.values.length + 1 =
      w.pool.validators.values.length := by
  have same : v.pool = w.pool := congrArg Books.pool books
  rw [same] at moved
  obtain ⟨left, removed, rfl⟩ := leaveValidators_ok reg mem moved
  obtain ⟨absent, _, length⟩ := removeValidatorData_ok reg mem removed
  have queued :=
    (reg.leave mem removed).enqueue absent fits ((msg.getEpoch.toNat + CLAIM_PERIOD) % 2 ^ 128)
  refine ⟨?_, length⟩
  rw [books]
  exact queued

end

section

variable (reg : Registry contract.self w.books)

include reg

theorem unregisterValidator_registry (fits : w.books.counter .publicStaking + 1 < 2 ^ 128)
    (ran : unregisterValidator contract w msg validator = .ok (w', result)) :
    Registry contract.self w'.books ∧ w'.books.counter .publicStaking =
      w.books.counter .publicStaking + 1 ∧
      w'.pool.validators.values.length + 1 = w.pool.validators.values.length := by
  have ran := balanceShouldNotChange_ok ran
  simp only [unregisterBody, ok_iff'] at ran
  obtain ⟨_, v, _, _, _, swapped, pool, moved, u, paid, rfl, _⟩ := ran
  obtain ⟨data, mem, rfl, rfl, books⟩ := swapValidatorStakingForPublicStaking_ok reg swapped
  obtain ⟨requeued, length⟩ := requeue_registry reg mem fits books moved
  have final := transferEthAndTokens_ok paid
  have poolFinal : u.pool = pool := congrArg Books.pool final
  have counter := congrArg Books.counter books
  rw [final, poolFinal]
  refine ⟨requeued, ?_, length⟩
  show v.books.counter .publicStaking = _
  rw [counter]
  simp only [Books.issue, Books.retire, update_self]

private theorem registerLoop_registry (foreign : msg.sender ≠ contract.self)
    (ran : registerLoop contract msg pairs w = .ok w') : Registry contract.self w'.books := by
  induction pairs generalizing w with
  | nil => exact pure_ok_iff.mp ran ▸ reg
  | cons pair rest ih =>
    simp only [registerLoop, bind_ok_iff] at ran
    obtain ⟨_, _, _, _, ⟨_, _⟩, registered, ran⟩ := ran
    exact ih (registerValidator_registry reg foreign registered) ran

private theorem unregisterLoop_registry
    (fits : w.books.counter .publicStaking + validators.length < 2 ^ 128)
    (ran : unregisterLoop contract msg validators w = .ok w') :
    Registry contract.self w'.books := by
  induction validators generalizing w with
  | nil => exact pure_ok_iff.mp ran ▸ reg
  | cons validator rest ih =>
    simp only [unregisterLoop, bind_ok_iff] at ran
    obtain ⟨⟨_, _⟩, unregistered, ran⟩ := ran
    rw [List.length_cons] at fits
    obtain ⟨reg, counter, _⟩ := unregisterValidator_registry reg (by omega) unregistered
    exact ih reg (by omega) ran

private theorem unregisterAllLoop_registry (rounds : w.pool.validators.values.length = n)
    (fits : w.books.counter .publicStaking + n < 2 ^ 128)
    (ran : unregisterAllLoop contract msg n w = .ok w') :
    Registry contract.self w'.books ∧ w'.pool.validators.values = [] := by
  induction n generalizing w with
  | zero =>
    obtain rfl := pure_ok_iff.mp ran
    exact ⟨reg, List.length_eq_zero_iff.mp rounds⟩
  | succ n ih =>
    have nonempty : 0 < w.pool.validators.length := by
      rw [length]
      omega
    simp only [unregisterAllLoop, if_pos nonempty, bind_ok_iff] at ran
    obtain ⟨_, _, ⟨_, _⟩, unregistered, ran⟩ := ran
    obtain ⟨reg, counter, length⟩ := unregisterValidator_registry reg (by omega) unregistered
    exact ih reg (by omega) (by omega) ran

end

inductive Burnt (contract : Contract) (w : World) (validator : Address) (b : Books) : Prop
  | listed (data : ValidatorData) (mem : data ∈ w.pool.validators.values) (named : data.address =
      validator)
      (books : b = w.books.retire .validatorStaking data.tokenID)
  | queued (absent : w.pool.validators.indexes validator = 0)
      (waiting : 0 < (w.pool.exitingValidatorsData validator).freeAfter)
      (books : b = w.books.retire .publicStaking (w.pool.exitingValidatorsData validator).tokenID)

theorem Burnt.same (burnt : Burnt contract w validator b) :
    b.pool = w.pool ∧ b.counter = w.books.counter := by
  cases burnt with
  | listed _ _ _ books | queued _ _ books => exact books ▸ ⟨rfl, rfl⟩

theorem Burnt.removeData_registry (burnt : Burnt contract w validator b)
    (reg : Registry contract.self w.books) (removed : removeData w.pool validator = .ok pool) :
    Registry contract.self { b with pool } := by
  cases burnt with
  | listed data mem named books =>
    subst named
    have present := reg.ordered.index_ne_zero_iff.mpr ⟨data, mem, rfl⟩
    have listed : isValidator w.pool data.address = true := contains_eq_true.mpr present
    rw [removeData, listed, if_pos rfl] at removed
    rw [books]
    exact reg.leave mem removed
  | queued absent waiting books =>
    have unlisted : isValidator w.pool validator = false := contains_eq_false.mpr absent
    rw [removeData, unlisted, if_neg (by simp)] at removed
    obtain rfl := pure_ok_iff.mp removed
    rw [books]
    exact reg.letGo none waiting fun some => absurd rfl some

theorem Burnt.restake_registry (burnt : Burnt contract w validator v.books)
    (reg : Registry contract.self w.books) (fits : w.books.counter .publicStaking + 1 < 2 ^ 128)
    (ran : restake contract v msg validator minerShares = .ok w') :
    Registry contract.self w'.books := by
  have same : v.pool = w.pool := burnt.same.1
  unfold restake at ran
  split at ran
  · simp only [ok_iff'] at ran
    obtain ⟨u, _, minted, pool, moved, rfl⟩ := ran
    obtain ⟨issued, rfl⟩ := mintPosition_ok minted
    rw [burnt.same.2] at moved
    show Registry contract.self { u.books with pool }
    cases burnt with
    | listed data mem named books =>
      subst named
      rw [books] at issued
      exact (requeue_registry reg mem fits issued moved).1
    | queued absent waiting books =>
      rw [books] at issued
      have samePool : u.pool = w.pool := congrArg Books.pool issued
      rw [samePool] at moved
      have unlisted : isValidator w.pool validator = false := contains_eq_false.mpr absent
      rw [moveToExitingQueue, leaveValidators, unlisted, if_neg (by simp)] at moved
      obtain ⟨_, left, moved⟩ := bind_ok_iff.mp moved
      obtain rfl := pure_ok_iff.mp left
      obtain rfl := pure_ok_iff.mp moved
      -- the old entry and its position go before the new ones come
      have gone := reg.letGo none waiting fun some => absurd rfl some
      have queued := gone.enqueue absent fits ((msg.getEpoch.toNat + CLAIM_PERIOD) % 2 ^ 128)
      simp only [removeExitingQueueData, update_idem] at queued
      rw [issued]
      exact queued
  · simp only [ok_iff] at ran
    obtain ⟨pool, removed, rfl⟩ := ran
    rw [same] at removed
    exact burnt.removeData_registry reg removed

section

variable (reg : Registry contract.self w.books)

include reg

theorem slash_ok
    (ran : slash contract w msg validator = .ok (w', minerShares, payouts)) :
    Burnt contract w validator w'.books := by
  simp only [slash, sub256, ok_iff', Word.sub_ok_iff] at ran
  obtain ⟨accusable, v, _, _, _, burnt, _, _, _, rfl, _⟩ := ran
  unfold burnAccused at burnt
  split at burnt
  · obtain ⟨data, mem, named, books⟩ := burnValidatorStakingPosition_ok reg burnt
    exact .listed data mem named books
  · rename_i absent
    have absent : isValidator w.pool validator = false := by simpa using absent
    rw [isAccusable, absent, Bool.false_or, isInExitingQueue, decide_eq_true_eq] at accusable
    exact .queued (contains_eq_false.mp absent) accusable (burnNFTPosition_ok burnt).2

private theorem majorSlash_registry (ran : majorSlash contract w msg validator disputer = .ok w') :
    Registry contract.self w'.books := by
  simp only [majorSlash, ok_iff] at ran
  obtain ⟨_, _, ⟨_, _⟩, done, rfl⟩ := ran
  have done := balanceShouldNotChange_ok done
  simp only [majorSlashBody, ok_iff'] at done
  obtain ⟨_, v, _, _, _, slashed, pool, removed, _, deposited, _, paid, rfl, _⟩ := done
  have burnt := slash_ok reg slashed
  have same : v.pool = w.pool := burnt.same.1
  rw [same] at removed
  rw [transferEthAndTokens_ok paid, depositToken_ok deposited]
  exact burnt.removeData_registry reg removed

private theorem minorSlash_registry (fits : w.books.counter .publicStaking + 1 < 2 ^ 128)
    (ran : minorSlash contract w msg validator disputer = .ok w') :
    Registry contract.self w'.books := by
  simp only [minorSlash, ok_iff] at ran
  obtain ⟨_, _, ⟨_, _⟩, done, rfl⟩ := ran
  have done := balanceShouldNotChange_ok done
  simp only [minorSlashBody, ok_iff'] at done
  obtain ⟨_, v, _, _, _, slashed, u, restaked, _, paid, rfl, _⟩ := done
  rw [transferEthAndTokens_ok paid]
  exact (slash_ok reg slashed).restake_registry reg fits restaked

private theorem claimExitingNFTPosition_registry
    (ran : claimExitingNFTPosition contract w msg = .ok (w', tokenID)) :
    Registry contract.self w'.books := by
  simp only [claimExitingNFTPosition, ok_iff'] at ran
  obtain ⟨waiting, _, v, locked, _, handed, rfl, _⟩ := ran
  have waiting := Nat.pos_of_ne_zero waiting
  obtain ⟨_, books⟩ := transferPosition_ok handed
  rw [books, lockOwnPosition_ok locked]
  refine reg.letGo _ waiting fun _ => reg.minted _ _ ?_
  rw [reg.queued _ waiting]
  exact Option.some_ne_none _

end

def Safe (w : World) : Call → Prop
  | .initialize_ _ maxNumValidators _ _ => w.pool.validators.length ≤ maxNumValidators
  | .unregisterValidators _ | .unregisterAllValidators | .minorSlash _ _ =>
    (w.staking .publicStaking).counter + w.pool.validators.length + 1 < 2 ^ 128
  | _ => True

/-- A call of the pool, what others do with their positions, or value that a contract receives. -/
inductive Step (contract : Contract) (allowed : World → Call → Prop) (w : World) : World → Prop
  | call (msg : Msg) (call : Call) (foreign : msg.sender ≠ contract.self) (safe : allowed w call)
      (ran : exec contract w msg call = .ok next) : Step contract allowed w next
  | staking (stake : Stake) (chain : StakingNFT.Chain) (msg : StakingNFT.Msg)
      (call : StakingNFT.Call)
      (foreign : msg.sender ≠ contract.self) (ran : StakingNFT.exec chain (w.staking stake) msg
        call = .ok σ) :
      Step contract allowed w (w.setStaking stake σ)
  | transfer (stake : Stake) (tokenID : ℕ) (to_ : Address)
      (owned : (w.staking stake).owners tokenID = some owner)
      (foreign : owner ≠ contract.self) :
      Step contract allowed w (w.setStaking stake
        { w.staking stake with
          owners := Function.update (w.staking stake).owners tokenID (some to_) })
  | receive (eth token : ℕ) :
      Step contract allowed w { w with
        tokenBalance := w.tokenBalance + token
        ethBalance := w.ethBalance + eth }
  | receiveStaking (stake : Stake) (eth token : ℕ) :
      Step contract allowed w (w.setStaking stake
        { w.staking stake with
          ethBalance := (w.staking stake).ethBalance + eth
          tokenBalance := (w.staking stake).tokenBalance + token })

def genesis : World := ⟨initial, fun _ => StakingNFT.initial, 0, 0⟩

def Run (contract : Contract) (allowed : World → Call → Prop) : World → Prop :=
  Relation.ReflTransGen (Step contract allowed) genesis

private theorem genesis_registry : Registry holder genesis.books where
  ordered := Indexed.nil
  tokens := List.nodup_nil
  bound := le_rfl
  apart _ _ := rfl
  listed _ mem := absurd mem List.not_mem_nil
  queued _ waiting := absurd waiting (lt_irrefl 0)
  distinct _ _ waiting := absurd waiting (lt_irrefl 0)
  minted _ _ owned := absurd rfl owned

theorem Registry.congr (reg : Registry holder b) (pool : b'.pool = b.pool)
    (owners : ∀ stake tokenID, b.owners stake tokenID = some holder → b'.owners stake tokenID =
      some holder)
    (minted : ∀ stake tokenID, b'.owners stake tokenID ≠ none → tokenID ≤ b'.counter stake) :
    Registry holder b' := by
  cases b' with
  | mk pool' owners' counter' =>
    subst pool
    exact { reg with
      listed := fun data mem => owners _ _ (reg.listed data mem)
      queued := fun account waiting => owners _ _ (reg.queued account waiting)
      minted }

section

variable (reg : Registry holder w.books)

include reg

private theorem setStaking_registry
    (kept : ∀ tokenID, (w.staking stake).owners tokenID = some holder →
      σ.owners tokenID = some holder)
    (minted : StakingNFT.Minted σ) : Registry holder (w.setStaking stake σ).books := by
  rw [books_setStaking]
  refine reg.congr rfl ?_ ?_
  · intro other tokenID owned
    by_cases same : other = stake
    · subst same
      simp only [update_self]
      exact kept tokenID owned
    · simp only [update_of_ne same]
      exact owned
  · intro other tokenID owned
    by_cases same : other = stake
    · subst same
      simp only [update_self] at owned ⊢
      exact minted tokenID owned
    · simp only [update_of_ne same] at owned ⊢
      exact reg.minted other tokenID owned

private theorem initializePool_registry (safe : w.pool.validators.length ≤ maxNumValidators)
    (ran : initializePool contract w msg stakeAmount maxNumValidators reward interval = .ok w') :
    Registry holder w'.books := by
  simp only [initializePool, ok_iff] at ran
  obtain ⟨_, _, _, _, rfl⟩ := ran
  exact { reg with bound := safe }

private theorem setMaxNumValidators_registry
    (ran : setMaxNumValidators contract w msg maxNumValidators = .ok w') :
    Registry holder w'.books := by
  simp only [setMaxNumValidators, ok_iff'] at ran
  obtain ⟨_, _, enough, rfl⟩ := ran
  exact { reg with bound := enough }

theorem Registry.unrelated (validators : w'.pool.validators = w.pool.validators)
    (maximum : w'.pool.maxNumValidators = w.pool.maxNumValidators)
    (exiting : w'.pool.exitingValidatorsData = w.pool.exitingValidatorsData)
    (staking : w'.staking = w.staking) : Registry holder w'.books := by
  obtain ⟨pool, staking', _, _⟩ := w'
  obtain rfl : staking' = w.staking := staking
  obtain ⟨_, _, _, _, _, _, _, _, _, _⟩ := pool
  subst validators maximum exiting
  exact ⟨reg.ordered, reg.tokens, reg.bound, reg.apart, reg.listed, reg.queued,
    reg.distinct, reg.minted⟩

end

private theorem exec_registry (reg : Registry contract.self w.books)
    (foreign : msg.sender ≠ contract.self) (safe : Safe w call)
    (ran : exec contract w msg call = .ok w') : Registry contract.self w'.books := by
  cases call with
  | initialize_ _ _ _ _ => exact initializePool_registry reg safe ran
  | setMaxNumValidators _ => exact setMaxNumValidators_registry reg ran
  | setStakeAmount _ | setDisputerReward _ | setLocation _ | scheduleMaintenance | completeETHDKG
      | pauseConsensus =>
    obtain ⟨_, _, done⟩ := bind_ok_iff.mp ran
    obtain rfl := pure_ok_iff.mp done
    exact reg.unrelated rfl rfl rfl rfl
  | setMaxIntervalWithoutSnapshots _ =>
    simp only [exec, setMaxIntervalWithoutSnapshots, ok_iff] at ran
    obtain ⟨_, _, _, _, rfl⟩ := ran
    exact reg.unrelated rfl rfl rfl rfl
  | initializeETHDKG =>
    simp only [exec, initializeETHDKG, ok_iff] at ran
    obtain ⟨_, _, _, _, _, _, _, _, rfl⟩ := ran
    exact reg
  | pauseConsensusOnArbitraryHeight _ =>
    simp only [exec, pauseConsensusOnArbitraryHeight, ok_iff] at ran
    obtain ⟨_, _, _, _, _, _, _, _, rfl⟩ := ran
    exact reg.unrelated rfl rfl rfl rfl
  | registerValidators validators stakerTokenIDs =>
    simp only [exec, registerValidators, bind_ok_iff] at ran
    obtain ⟨_, _, _, _, _, _, _, _, _, _, registered⟩ := ran
    exact registerLoop_registry reg foreign registered
  | unregisterValidators validators =>
    simp only [exec, unregisterValidators, ok_iff'] at ran
    obtain ⟨_, _, _, _, _, _, enough, unregistered⟩ := ran
    refine unregisterLoop_registry reg ?_ unregistered
    exact lt_of_le_of_lt (Nat.add_le_add_left (enough.trans (Nat.le_succ _)) _) safe
  | unregisterAllValidators =>
    simp only [exec, unregisterAllValidators, bind_ok_iff] at ran
    obtain ⟨_, _, _, _, _, _, unregistered⟩ := ran
    exact (unregisterAllLoop_registry reg rfl (lt_of_le_of_lt (Nat.le_succ _) safe) unregistered).1
  | collectProfits =>
    simp only [exec, collectProfits, map_ok_iff, bind_ok_iff, Prod.exists] at ran
    obtain ⟨_, _, _, ⟨_, _, collected⟩, rfl⟩ := ran
    have collected := balanceShouldNotChange_ok collected
    simp only [collectBody, bind_ok_iff] at collected
    obtain ⟨_, _, _, _, collected⟩ := collected
    rw [collectTo_ok collected]
    exact reg
  | claimExitingNFTPosition =>
    obtain ⟨⟨_, _⟩, claimed, rfl⟩ := map_ok_iff.mp ran
    exact claimExitingNFTPosition_registry reg claimed
  | majorSlash _ _ => exact majorSlash_registry reg ran
  | minorSlash _ _ =>
    refine minorSlash_registry reg (lt_of_le_of_lt ?_ safe) ran
    exact Nat.succ_le_succ (Nat.le_add_right _ _)
  | skimExcessEth _ =>
    simp only [exec, skimExcessEth, ok_iff'] at ran
    obtain ⟨_, _, ⟨_, _, _, sent, rfl, _⟩, rfl⟩ := ran
    rw [safeTransferEth_ok sent]
    exact reg
  | skimExcessToken _ =>
    simp only [exec, skimExcessToken, ok_iff'] at ran
    obtain ⟨_, _, ⟨_, _, _, sent, rfl, _⟩, rfl⟩ := ran
    rw [safeTransferERC20_ok sent]
    exact reg

theorem Step.registry (step : Step contract Safe w w') (reg : Registry contract.self w.books) :
    Registry contract.self w'.books := by
  cases step with
  | call msg call foreign safe ran => exact exec_registry reg foreign safe ran
  | staking stake chain msg call foreign ran =>
    have moved := StakingNFT.exec_moved ran
    exact setStaking_registry reg (fun _ owned => moved.kept owned foreign.symm)
      (moved.minted fun tokenID => reg.minted stake tokenID)
  | transfer stake tokenID to_ owned foreign =>
    refine setStaking_registry reg ?_ ?_
    · intro kept held
      simp only
      rw [update_of_ne, held]
      rintro rfl
      exact foreign (Option.some.inj (owned.symm.trans held))
    · intro other held
      by_cases same : other = tokenID
      · subst same
        refine reg.minted stake other ?_
        show (w.staking stake).owners other ≠ none
        rw [owned]
        exact Option.some_ne_none _
      · simp only [update_of_ne same] at held
        exact reg.minted stake other held
  | receive eth token => exact reg
  | receiveStaking stake eth token =>
    exact setStaking_registry reg (fun _ held => held) fun tokenID => reg.minted stake tokenID

/-- The list and its index are inverse, nobody is in the list and in the queue, and the pool owns
the positions of both. -/
structure Consistent (contract : Contract) (w : World) : Prop where
  inverse : ∀ account i, w.pool.validators.indexes account = i + 1 ↔
    ∃ data, w.pool.validators.values[i]? = some data ∧ data.address = account
  addresses : (w.pool.validators.values.map ValidatorData.address).Nodup
  tokens : (w.pool.validators.values.map ValidatorData.tokenID).Nodup
  bound : w.pool.validators.length ≤ w.pool.maxNumValidators
  apart : ∀ account, ¬(isValidator w.pool account = true ∧ isInExitingQueue w.pool account = true)
  listed : ∀ data ∈ w.pool.validators.values,
    (w.staking .validatorStaking).owners data.tokenID = some contract.self
  queued : ∀ account, isInExitingQueue w.pool account = true →
    (w.staking .publicStaking).owners (w.pool.exitingValidatorsData account).tokenID =
      some contract.self

theorem Registry.tidy (reg : Registry contract.self w.books) : Consistent contract w where
  inverse := reg.ordered
  addresses := reg.ordered.keys_nodup
  tokens := reg.tokens
  bound := reg.bound
  apart := by
    rintro account ⟨listed, queued⟩
    have idle := reg.apart account (ValidatorDataMap.contains_eq_true.mp listed)
    have waiting := of_decide_eq_true queued
    exact absurd idle waiting.ne'
  listed := reg.listed
  queued account queued := reg.queued account (of_decide_eq_true queued)

theorem Run.registry (run : Run contract Safe w) : Registry contract.self w.books := by
  induction run with
  | refl => exact genesis_registry
  | tail _ step ih => exact step.registry ih

theorem Run.consistent (run : Run contract Safe w) : Consistent contract w :=
  run.registry.tidy

def sample : Contract where
  self := 10
  factory := 11
  ethdkg := 12
  snapshots := 13
  chain _ := ⟨20, 11, 14, 15, fun _ => true, 0, 0, by decide, by norm_num, by norm_num⟩

def order : Msg := ⟨11, 10, fun _ => true, fun _ => true, fun _ => true, false, 0, 0, .ok (),
    fun _ => .ok ()⟩

def play (w : World) : List Call → Except Revert World
  | [] => pure w
  | call :: rest => exec sample w order call >>= (play · rest)

theorem run_play (run : Run sample allowed w) (safe : ∀ call ∈ calls, ∀ w, allowed w call)
    (ran : play w calls = .ok w') : Run sample allowed w' := by
  induction calls generalizing w with
  | nil => exact pure_ok_iff.mp ran ▸ run
  | cons call rest ih =>
    obtain ⟨v, done, ran⟩ := bind_ok_iff.mp ran
    refine ih (run.tail (.call order call (by decide) (safe call List.mem_cons_self w) done)) ?_ ran
    exact fun other mem => safe other (List.mem_cons_of_mem _ mem)

/-- The factory opens a public position of 100 ALCA. -/
def staked : Except Revert World := do
  let σ ← (StakingNFT.exec (sample.chain .publicStaking) StakingNFT.initial ⟨11, 0, 100, 1⟩
    (.mint 100)).mapError .staking
  pure (genesis.setStaking .publicStaking σ)

def enrolment : List Call :=
    [.setStakeAmount 100, .setMaxNumValidators 1, .registerValidators [7] [1]]

theorem run_staked (ran : staked = .ok w) : Run sample allowed w := by
  obtain ⟨σ, minted, ran⟩ := bind_ok_iff.mp ran
  obtain rfl := pure_ok_iff.mp ran
  exact .single (.staking .publicStaking _ _ _ (by decide) (mapError_ok_iff.mp minted))

/-- The validator is registered, and then sent to the queue. -/
theorem Run.consistent_enrolled : ∃ w w', Run sample Safe w' ∧ Consistent sample w' ∧
    isValidator w.pool 7 = true ∧ exec sample w { order with number := 20 }
    (.unregisterValidators [7]) = .ok w' ∧
    isInExitingQueue w'.pool 7 = true := by
  have value : (do
      let w ← staked
      let w ← play w enrolment
      let w' ← exec sample w { order with number := 20 } (.unregisterValidators [7])
      pure (isValidator w.pool 7, isInExitingQueue w'.pool 7,
        (w.staking .publicStaking).counter + w.pool.validators.length) :
          Except Revert (Bool × Bool × ℕ)) =
      .ok (true, true, 2) := by
    decide +kernel
  simp only [ok_iff, Prod.mk.injEq] at value
  obtain ⟨v, start, w, played, w', left, listed, queued, few⟩ := value
  have run : Run sample Safe w := by
    refine run_play (run_staked start) ?_ played
    intro call mem w
    simp only [enrolment, List.mem_cons, List.not_mem_nil, or_false] at mem
    rcases mem with rfl | rfl | rfl <;> trivial
  have safe : Safe w (.unregisterValidators [7]) := by
    rw [Safe, few]
    norm_num
  have run' : Run sample Safe w' :=
    run.tail (.call { order with number := 20 } _ (by decide) safe left)
  exact ⟨w, w', run', Run.consistent run', listed, left, queued⟩

/-- A validator is registered before `initialize` sets the maximum to zero. -/
theorem initialize_below_length : ∃ w, Run sample (fun _ _ => True) w ∧
    w.pool.maxNumValidators < w.pool.validators.length := by
  have value : (do
      let w ← staked
      let w ← play w (enrolment ++ [.initialize_ 100 0 0 0])
      pure (decide (w.pool.maxNumValidators < w.pool.validators.length)) : Except Revert Bool) =
          .ok true := by
    decide +kernel
  simp only [ok_iff, decide_eq_true_eq] at value
  obtain ⟨v, start, w, played, less⟩ := value
  exact ⟨w, run_play (run_staked start) (fun _ _ _ => trivial) played, less⟩

end AliceNet.Bridge.ValidatorPool
