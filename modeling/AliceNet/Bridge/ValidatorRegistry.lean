import AliceNet.Bridge.StakingOwnership
import AliceNet.Bridge.ValidatorPool
import AliceNet.Library.IndexedList

/-! The registry of the validator pool: its storage, and who owns which staking position. -/

namespace AliceNet.Bridge.ValidatorPool

open IndexedList Outcome
open Function
open List

namespace ValidatorDataMap

def Ordered (map : ValidatorDataMap) : Prop := Indexed ValidatorData.address map.values map.indexes

section

variable {map : ValidatorDataMap}

theorem contains_eq_true : map.contains key = true ↔ map.indexes key ≠ 0 := by
  simp [contains]

theorem contains_eq_false : map.contains key = false ↔ map.indexes key = 0 := by
  simp [contains]

theorem at_ok (ran : map.at_ index = .ok value) : map.values[index]? = some value := by
  unfold at_ at ran
  split at ran
  · rename_i found
    rw [found, Except.ok.inj ran]
  · cases ran

theorem get_ok (ordered : map.Ordered) (ran : map.get key = .ok value) :
    value ∈ map.values ∧ value.address = key := by
  simp only [get, tryGet, ok_iff'] at ran
  obtain ⟨_, _, found, rfl, rfl⟩ := ran
  split at found
  · simp [pure_ok_iff] at found
  · rename_i present
    simp only [ok_iff', true_and] at found
    obtain ⟨_, found, rfl⟩ := found
    have found := at_ok found
    have position := ordered.index found
    obtain ⟨w, there, rfl⟩ := (ordered key (map.indexes key - 1)).mp (by omega)
    obtain rfl := Option.some.inj (there.symm.trans found)
    exact ⟨mem_of_getElem? found, rfl⟩

theorem remove_ok (ordered : map.Ordered) (present : map.indexes key ≠ 0)
    (ran : map.remove key = .ok (map', done)) :
    ∃ v last i, map.values[i]? = some v ∧ v.address = key ∧ map.values.getLast? = some last ∧
      map'.values = swapPop map.values i last ∧
      map'.indexes = update (update map.indexes last.address (i + 1)) key 0 := by
  rw [remove, if_pos present] at ran
  simp only [sub256, ok_iff', Word.sub_ok_iff] at ran
  obtain ⟨_, ⟨_, rfl⟩, _, ⟨nonempty, rfl⟩, moved, ran, rfl, _⟩ := ran
  obtain ⟨v, found, named⟩ := (ordered key (map.indexes key - 1)).mp (by omega)
  unfold moveLast at ran
  split at ran
  · simp only [ok_iff'] at ran
    obtain ⟨last, ends, _, rfl⟩ := ran
    have ends := at_ok ends
    rw [← getLast?_eq_getElem?] at ends
    exact ⟨v, last, _, found, named, ends, rfl, rfl⟩
  · rename_i same
    obtain rfl := pure_ok_iff.mp ran
    have place : map.values.length - 1 = map.indexes key - 1 := by simpa using same
    have ends : map.values.getLast? = some v := by rw [getLast?_eq_getElem?, place, found]
    refine ⟨v, v, _, found, named, ends, ?_, ?_⟩
    · obtain ⟨bound, rfl⟩ := List.getElem?_eq_some_iff.mp found
      rw [swapPop, set_getElem_self]
    · rw [named, update_idem]

end

end ValidatorDataMap

structure Books where
  pool : Storage
  owners : Stake → ℕ → Option Address
  counter : Stake → ℕ

def World.books (w : World) : Books :=
  ⟨w.pool, fun stake => (w.staking stake).owners, fun stake => (w.staking stake).counter⟩

namespace Books

def issue (b : Books) (stake : Stake) (to_ : Address) : Books :=
  { b with
    owners := Function.update b.owners stake
      (Function.update (b.owners stake) (b.counter stake + 1) (some to_))
    counter := Function.update b.counter stake (b.counter stake + 1) }

def retire (b : Books) (stake : Stake) (tokenID : ℕ) : Books :=
  { b with
    owners := Function.update b.owners stake (Function.update (b.owners stake) tokenID none) }

def hand (b : Books) (stake : Stake) (tokenID : ℕ) (to_ : Address) : Books :=
  { b with owners := Function.update b.owners stake (Function.update (b.owners stake) tokenID
    (some to_)) }

end Books

/-- The list and its index agree, and the pool owns the positions of the list and the queue. -/
structure Registry (holder : Address) (b : Books) : Prop where
  ordered : b.pool.validators.Ordered
  tokens : (b.pool.validators.values.map ValidatorData.tokenID).Nodup
  bound : b.pool.validators.values.length ≤ b.pool.maxNumValidators
  apart : ∀ account, b.pool.validators.indexes account ≠ 0 →
    (b.pool.exitingValidatorsData account).freeAfter = 0
  listed : ∀ data ∈ b.pool.validators.values, b.owners .validatorStaking data.tokenID = some holder
  queued : ∀ account, 0 < (b.pool.exitingValidatorsData account).freeAfter →
    b.owners .publicStaking (b.pool.exitingValidatorsData account).tokenID = some holder
  distinct : ∀ account other, 0 < (b.pool.exitingValidatorsData account).freeAfter →
    0 < (b.pool.exitingValidatorsData other).freeAfter →
    (b.pool.exitingValidatorsData account).tokenID = (b.pool.exitingValidatorsData other).tokenID →
      account = other
  minted : ∀ stake tokenID, b.owners stake tokenID ≠ none → tokenID ≤ b.counter stake

namespace Registry

variable {holder account : Address} {b : Books} {pool : Storage} {tokenID : ℕ}
  {data : ValidatorData}

section

variable (reg : Registry holder b)

include reg

theorem issued_ne (owned : b.owners stake tokenID = some owner) :
    tokenID ≠ b.counter stake + 1 := by
  rintro rfl
  have := reg.minted stake _ (by rw [owned]; exact Option.some_ne_none owner)
  omega

theorem minted_issue :
    ∀ other tokenID, (b.issue stake to_).owners other tokenID ≠ none →
      tokenID ≤ (b.issue stake to_).counter other := by
  intro other tokenID owned
  simp only [Books.issue] at owned ⊢
  by_cases same : other = stake
  · subst same
    rw [update_self] at owned ⊢
    by_cases new : tokenID = b.counter other + 1
    · exact new.le
    · rw [update_of_ne new] at owned
      exact (reg.minted other tokenID owned).trans (Nat.le_succ _)
  · rw [update_of_ne same] at owned ⊢
    exact reg.minted other tokenID owned

theorem minted_retire (stake : Stake) (gone : ℕ) :
    ∀ other tokenID, (b.retire stake gone).owners other tokenID ≠ none →
      tokenID ≤ b.counter other := by
  intro other tokenID owned
  simp only [Books.retire] at owned
  by_cases same : other = stake
  · subst same
    rw [update_self] at owned
    by_cases burnt : tokenID = gone
    · rw [burnt, update_self] at owned
      exact absurd rfl owned
    · rw [update_of_ne burnt] at owned
      exact reg.minted other tokenID owned
  · rw [update_of_ne same] at owned
    exact reg.minted other tokenID owned

theorem retireForeign (owned : b.owners stake tokenID = some owner) (foreign : owner ≠ holder) :
    Registry holder (b.retire stake tokenID) := by
  have keeps (other : Stake) (kept : ℕ) (held : b.owners other kept = some holder) :
      (b.retire stake tokenID).owners other kept = some holder := by
    simp only [Books.retire]
    by_cases same : other = stake
    · subst same
      rw [update_self, update_of_ne, held]
      rintro rfl
      exact foreign (Option.some.inj (owned.symm.trans held))
    · rw [update_of_ne same, held]
  exact {
    ordered := reg.ordered
    tokens := reg.tokens
    bound := reg.bound
    apart := reg.apart
    listed := fun data mem => keeps _ _ (reg.listed data mem)
    queued := fun account waiting => keeps _ _ (reg.queued account waiting)
    distinct := reg.distinct
    minted := reg.minted_retire stake tokenID }

theorem enter (room : b.pool.validators.values.length < b.pool.maxNumValidators)
    (absent : b.pool.validators.indexes account = 0)
    (idle : (b.pool.exitingValidatorsData account).freeAfter = 0) :
    Registry holder { b.issue .validatorStaking holder with
      pool := { b.pool with
        validators := (b.pool.validators.add ⟨account, b.counter .validatorStaking + 1⟩).1 } } := by
  have added : (b.pool.validators.add ⟨account, b.counter .validatorStaking + 1⟩).1 =
      ⟨b.pool.validators.values ++ [⟨account, b.counter .validatorStaking + 1⟩],
        update b.pool.validators.indexes account (b.pool.validators.values.length + 1)⟩ := by
    simp [ValidatorDataMap.add, ValidatorDataMap.contains_eq_false.mpr absent]
  rw [added]
  refine ⟨reg.ordered.push absent, ?_, ?_, ?_, ?_, ?_, reg.distinct, reg.minted_issue⟩
  · simp only [map_append, map_singleton]
    refine nodup_append.mpr ⟨reg.tokens, nodup_singleton _, ?_⟩
    rintro tokenID mem _ new rfl
    obtain ⟨data, inList, rfl⟩ := mem_map.mp mem
    exact reg.issued_ne (reg.listed data inList) (mem_singleton.mp new)
  · simp only [length_append, length_singleton]
    exact room
  · intro other present
    by_cases same : other = account
    · exact same ▸ idle
    · simp only [update_of_ne same] at present
      exact reg.apart other present
  · intro data mem
    simp only [Books.issue, update_self]
    rcases mem_append.mp mem with old | new
    · rw [update_of_ne (reg.issued_ne (reg.listed data old)), reg.listed data old]
    · rw [mem_singleton.mp new, update_self]
  · intro other waiting
    simp only [Books.issue]
    rw [update_of_ne (by decide)]
    exact reg.queued other waiting

theorem leave (mem : data ∈ b.pool.validators.values)
    (removed : removeValidatorData b.pool data.address = .ok pool) :
    Registry holder { b.retire .validatorStaking data.tokenID with pool } := by
  simp only [removeValidatorData, ok_iff'] at removed
  obtain ⟨map, _, removed, rfl⟩ := removed
  have present := reg.ordered.index_ne_zero_iff.mpr ⟨data, mem, rfl⟩
  obtain ⟨v, last, i, found, named, ends, values, indexes⟩ :=
    ValidatorDataMap.remove_ok reg.ordered present removed
  -- the entry found under the address is the given one, as addresses are distinct
  obtain rfl : v = data := by
    have unique := inj_on_of_nodup_map reg.ordered.keys_nodup
    exact unique (mem_of_getElem? found) mem named
  have perm := swapPop_perm found ends
  have tokens := (perm.map ValidatorData.tokenID).nodup_iff.mpr reg.tokens
  rw [map_cons, nodup_cons] at tokens
  have sub (other : ValidatorData) (inside : other ∈ map.values) :
      other ∈ b.pool.validators.values ∧ other.tokenID ≠ v.tokenID := by
    rw [values] at inside
    refine ⟨perm.subset (mem_cons_of_mem _ inside), fun same => tokens.1 ?_⟩
    exact same ▸ mem_map_of_mem inside
  have ordered : map.Ordered := by
    have swapped := reg.ordered.swapPop found ends
    rw [← values, ← indexes] at swapped
    exact swapped
  have length := perm.length_eq
  rw [length_cons, ← values] at length
  refine ⟨ordered, ?_, ?_, ?_, ?_, ?_, reg.distinct, reg.minted_retire _ _⟩
  · rw [values]
    exact tokens.2
  · have := reg.bound
    simp only
    omega
  · intro account present
    obtain ⟨other, inside, rfl⟩ := ordered.index_ne_zero_iff.mp present
    exact reg.apart _ (reg.ordered.index_ne_zero_iff.mpr ⟨other, (sub other inside).1, rfl⟩)
  · intro other inside
    obtain ⟨mem, different⟩ := sub other inside
    simp only [Books.retire, update_self]
    rw [update_of_ne different, reg.listed other mem]
  · intro account waiting
    simp only [Books.retire]
    rw [update_of_ne (by decide)]
    exact reg.queued account waiting

theorem letGo (new : Option Address)
    (waiting : 0 < (b.pool.exitingValidatorsData account).freeAfter)
    (minted : new ≠ none → (b.pool.exitingValidatorsData account).tokenID ≤
    b.counter .publicStaking) :
    Registry holder { b with
      pool := removeExitingQueueData b.pool account
      owners := update b.owners .publicStaking
        (update (b.owners .publicStaking) (b.pool.exitingValidatorsData account).tokenID
            new) } := by
  have still (other : Address)
      (there : 0 < (update b.pool.exitingValidatorsData account ⟨0, 0⟩ other).freeAfter) :
      other ≠ account ∧ 0 < (b.pool.exitingValidatorsData other).freeAfter := by
    by_cases same : other = account
    · rw [same, update_self] at there
      exact absurd there (lt_irrefl 0)
    · rw [update_of_ne same] at there
      exact ⟨same, there⟩
  refine ⟨reg.ordered, reg.tokens, reg.bound, ?_, ?_, ?_, ?_, ?_⟩
  · intro other present
    simp only [removeExitingQueueData]
    by_cases same : other = account
    · rw [same, update_self]
    · rw [update_of_ne same]
      exact reg.apart other present
  · intro other mem
    simp only
    rw [update_of_ne (by decide)]
    exact reg.listed other mem
  · intro other there
    obtain ⟨different, there⟩ := still other there
    simp only [removeExitingQueueData, update_self, update_of_ne different]
    rw [update_of_ne, reg.queued other there]
    exact fun same => different (reg.distinct other account there waiting same)
  · intro first second firstThere secondThere same
    obtain ⟨firstNe, firstThere⟩ := still first firstThere
    obtain ⟨secondNe, secondThere⟩ := still second secondThere
    simp only [removeExitingQueueData, update_of_ne firstNe, update_of_ne secondNe] at same
    exact reg.distinct first second firstThere secondThere same
  · intro stake tokenID owned
    by_cases same : stake = .publicStaking
    · subst same
      simp only [update_self] at owned
      by_cases moved : tokenID = (b.pool.exitingValidatorsData account).tokenID
      · rw [moved, update_self] at owned
        exact moved ▸ minted owned
      · rw [update_of_ne moved] at owned
        exact reg.minted _ tokenID owned
    · simp only [update_of_ne same] at owned
      exact reg.minted stake tokenID owned

theorem enqueue (absent : b.pool.validators.indexes account = 0)
    (fits : b.counter .publicStaking + 1 < 2 ^ 128)
    (freeAfter : ℕ) :
    Registry holder { b.issue .publicStaking holder with
      pool := { b.pool with
        exitingValidatorsData := update b.pool.exitingValidatorsData account
          ⟨(b.counter .publicStaking + 1) % 2 ^ 128, freeAfter⟩ } } := by
  rw [Nat.mod_eq_of_lt fits]
  have fresh (other : Address) (there : 0 < (b.pool.exitingValidatorsData other).freeAfter) :=
    reg.issued_ne (reg.queued other there)
  refine ⟨reg.ordered, reg.tokens, reg.bound, ?_, ?_, ?_, ?_, reg.minted_issue⟩
  · intro other present
    have different : other ≠ account := fun same => present (same ▸ absent)
    simp only [update_of_ne different]
    exact reg.apart other present
  · intro other mem
    simp only [Books.issue]
    rw [update_of_ne (by decide)]
    exact reg.listed other mem
  · intro other there
    simp only [Books.issue, update_self]
    by_cases same : other = account
    · simp only [same, update_self]
    · simp only [update_of_ne same] at there ⊢
      rw [update_of_ne (fresh other there), reg.queued other there]
  · intro first second firstThere secondThere same
    by_cases firstSame : first = account
    · by_cases secondSame : second = account
      · rw [firstSame, secondSame]
      · simp only [firstSame, update_self, update_of_ne secondSame] at secondThere same
        exact absurd same.symm (fresh second secondThere)
    · simp only [update_of_ne firstSame] at firstThere same
      by_cases secondSame : second = account
      · simp only [secondSame, update_self] at same
        exact absurd same (fresh first firstThere)
      · simp only [update_of_ne secondSame] at secondThere same
        exact reg.distinct first second firstThere secondThere same

end

end Registry

end AliceNet.Bridge.ValidatorPool
