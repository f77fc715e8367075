import AliceNet.Application.Transactions

/-! How long a data store lives. Epochs and heights are numbers of 32 bits. -/

namespace AliceNet.Application

open Consensus (Fault EpochLength epochOf)
open Outcome (require)
open Outcome (bind_ok_iff pure_ok_iff require_ok_iff require_of mapM_of_ok ok_iff)
open List

structure OwnerSignature where
  curveSpec : CurveSpec
  signature : Bytes
  deriving DecidableEq, Repr

section

variable (env : Environment)

def DataStoreOwner.wrongAccount : CurveSpec → Fault
  | .secp256k1 => .invalid "dso.validateSignature; invalid sig for secp256k1 account"
  | .bn256Eth => .invalid "dso.validateSignature; invalid sig for bn256 account"

def DataStoreOwner.validateSignature (owner : Owner) (msg : Bytes) (sig : OwnerSignature)
    (isExpired : Bool) : Except Fault Unit := do
  require (isExpired ∨ sig.curveSpec = owner.curveSpec)
    (.invalid "dso.validateSignature; unmatched curve spec")
  let pk ← env.validate sig.curveSpec msg sig.signature
  require (isExpired ∨ env.getAccount pk = owner.account)
    (DataStoreOwner.wrongAccount sig.curveSpec)

def DSPreImage.validateSignature (b : DSPreImage) (currentHeight : ℕ) (msg : Bytes)
    (sig : OwnerSignature) : Except Fault Unit := do
  let isExpired ← b.isExpired currentHeight
  DataStoreOwner.validateSignature env b.owner msg sig isExpired

end

private theorem epochOf_le (word : height < 2 ^ 32) : epochOf height ≤ 2 ^ 22 := by
  unfold epochOf EpochLength
  split
  · omega
  · split <;> omega

/-- The height that `mustBeMinedBeforeHeight` finds. -/
def TXOut.lastHeight : TXOut → ℕ
  | dataStore ds => (ds.dsPreImage.issuedAt * EpochLength + MaxUint32) % 2 ^ 32
  | valueStore _ => MaxUint32

theorem DataStore.issuedAt_ne_zero (ds : DataStore) : ds.dsPreImage.issuedAt ≠ 0 := by
  have valid := ds.valid
  simp only [DSPreImage.validateDeposit, ok_iff] at valid
  obtain ⟨_, _, _, _, _, issued, _⟩ := valid
  exact issued

theorem DataStore.index_ne_zero (ds : DataStore) : ds.dsPreImage.index ≠ 0 := by
  obtain ⟨_, decoded⟩ := ds.decoded
  simp only [DSPreImage.validate, ok_iff] at decoded
  obtain ⟨_, _, _, named, _⟩ := decoded
  exact named

theorem TXOut.mustBeMinedBeforeHeight_eq (utxo : TXOut) :
    utxo.mustBeMinedBeforeHeight = .ok utxo.lastHeight := by
  cases utxo with
  | valueStore => rfl
  | dataStore ds =>
    refine bind_ok_iff.mpr ⟨ds.dsPreImage.issuedAt, ?_, rfl⟩
    exact bind_ok_iff.mpr ⟨(), require_of ds.issuedAt_ne_zero _, rfl⟩

theorem TXOut.lastHeight_eq_max_iff :
    (dataStore ds).lastHeight = MaxUint32 ↔ ds.dsPreImage.issuedAt % 2 ^ 22 = 0 := by
  simp only [lastHeight, MaxUint32, EpochLength]
  omega

theorem TXOut.lastHeight_eq (seen : ds.dsPreImage.issuedAt % 2 ^ 22 ≠ 0) :
    (dataStore ds).lastHeight = ds.dsPreImage.issuedAt % 2 ^ 22 * EpochLength - 1 := by
  simp only [lastHeight, MaxUint32, EpochLength]
  omega

private theorem epochOf_last {epoch : ℕ} (pos : epoch ≠ 0) :
    epochOf (epoch * EpochLength - 1) = epoch := by
  unfold epochOf EpochLength
  split
  · omega
  · split <;> omega

namespace Tx

/-- The heights that `validateIssuedAtForMining` compares. -/
def lastHeights (b : Tx) : List ℕ :=
  ((b.vout.map TXOut.lastHeight).filter (· ≠ MaxUint32)).dedup

private theorem mem_lastHeights_iff {b : Tx} :
    height ∈ b.lastHeights ↔ ∃ ds, TXOut.dataStore ds ∈ b.vout ∧
    ds.dsPreImage.issuedAt % 2 ^ 22 ≠ 0 ∧
      height = ds.dsPreImage.issuedAt % 2 ^ 22 * EpochLength - 1 := by
  simp only [lastHeights, mem_dedup, mem_filter, mem_map, decide_eq_true_eq]
  constructor
  · rintro ⟨⟨utxo, listed, rfl⟩, bounded⟩
    cases utxo with
    | valueStore => exact absurd rfl bounded
    | dataStore ds =>
      have seen := fun none => bounded (TXOut.lastHeight_eq_max_iff.mpr none)
      exact ⟨ds, listed, seen, TXOut.lastHeight_eq seen⟩
  · rintro ⟨ds, listed, seen, rfl⟩
    refine ⟨⟨.dataStore ds, listed, TXOut.lastHeight_eq seen⟩, ?_⟩
    rw [← TXOut.lastHeight_eq seen]
    exact fun none => seen (TXOut.lastHeight_eq_max_iff.mp none)

private theorem validateIssuedAtForMining_eq (b : Tx) (currentHeight : ℕ) (outputs : b.vout ≠ []) :
    b.validateIssuedAtForMining currentHeight = match b.lastHeights with
      | [] => pure ()
      | [mbh] => require (epochOf mbh = epochOf currentHeight)
          (.invalid "tx.validateIssuedAtForMining: mining out of epoch")
      | _ => .error (.invalid "tx.validateIssuedAtForMining: conflicting IssuedAt") := by
  rw [validateIssuedAtForMining, require_of outputs,
    mapM_of_ok (f := TXOut.lastHeight) fun utxo _ => utxo.mustBeMinedBeforeHeight_eq]
  rfl

private theorem validateIssuedAtForMining_ok_iff (b : Tx) (currentHeight : ℕ) :
    b.validateIssuedAtForMining currentHeight = .ok () ↔ b.vout ≠ [] ∧ ∀ ds,
      TXOut.dataStore ds ∈ b.vout →
      ds.dsPreImage.issuedAt % 2 ^ 22 = 0 ∨ ds.dsPreImage.issuedAt % 2 ^ 22 =
        epochOf currentHeight := by
  by_cases outputs : b.vout = []
  · simp [validateIssuedAtForMining, require, outputs, bind, Except.bind]
  rw [validateIssuedAtForMining_eq b currentHeight outputs]
  have members : ∀ height, height ∈ b.lastHeights ↔ _ := fun _ => mem_lastHeights_iff
  have distinct : b.lastHeights.Nodup := nodup_dedup _
  match heights : b.lastHeights with
  | [] =>
    rw [heights] at members
    refine iff_of_true rfl ⟨outputs, fun ds listed => ?_⟩
    by_contra seen
    rw [not_or] at seen
    exact not_mem_nil ((members _).mpr ⟨ds, listed, seen.1, rfl⟩)
  | [mbh] =>
    rw [heights] at members
    obtain ⟨first, listed, seen, rfl⟩ := (members mbh).mp (mem_singleton.mpr rfl)
    rw [require_ok_iff, epochOf_last seen]
    constructor
    · intro same
      refine ⟨outputs, fun ds listed => ?_⟩
      by_cases none : ds.dsPreImage.issuedAt % 2 ^ 22 = 0
      · exact .inl none
      · have single := mem_singleton.mp ((members _).mpr ⟨ds, listed, none, rfl⟩)
        rw [← same, ← epochOf_last none, single, epochOf_last seen]
        exact .inr rfl
    · rintro ⟨_, right⟩
      exact (right first listed).resolve_left seen
  | mbh :: mbh' :: rest =>
    rw [heights] at members distinct
    refine iff_of_false (by simp) ?_
    rintro ⟨_, right⟩
    obtain ⟨first, listed, seen, rfl⟩ := (members mbh).mp mem_cons_self
    obtain ⟨second, listed', seen', rfl⟩ := (members mbh').mp (mem_cons_of_mem _ mem_cons_self)
    have same := (right first listed).resolve_left seen
    have same' := (right second listed').resolve_left seen'
    rw [same, same', nodup_cons] at distinct
    exact distinct.1 mem_cons_self

/-- The outputs can only be mined in the epoch they are issued at, unless an epoch that is issued
does not fit into the heights: then another one of the transaction has to be refused for what is
left of it. -/
theorem issuedAt_current_iff (b : Tx) (currentHeight : ℕ) :
    (b.validateIssuedAtForMining currentHeight = .ok () →
      ∀ ds, TXOut.dataStore ds ∈ b.vout → ds.dsPreImage.issuedAt = epochOf currentHeight) ↔
    (∃ ds, TXOut.dataStore ds ∈ b.vout ∧ ds.dsPreImage.issuedAt % 2 ^ 22 ≠ 0 ∧
      ds.dsPreImage.issuedAt % 2 ^ 22 ≠ epochOf currentHeight) ∨
    ∀ ds, TXOut.dataStore ds ∈ b.vout →
      ds.dsPreImage.issuedAt < 2 ^ 22 ∨ ds.dsPreImage.issuedAt = epochOf currentHeight := by
  rw [validateIssuedAtForMining_ok_iff]
  constructor
  · intro current
    by_cases refused : ∃ ds, TXOut.dataStore ds ∈ b.vout ∧ ds.dsPreImage.issuedAt % 2 ^ 22 ≠ 0 ∧
        ds.dsPreImage.issuedAt % 2 ^ 22 ≠ epochOf currentHeight
    · exact .inl refused
    · refine .inr fun ds listed =>
        .inr (current ⟨ne_nil_of_mem listed, fun other mem => ?_⟩ ds listed)
      by_contra wrong
      rw [not_or] at wrong
      exact refused ⟨other, mem, wrong⟩
  · rintro condition ⟨_, passes⟩ ds listed
    rcases condition with ⟨other, mem, unseen, wrong⟩ | fits
    · exact absurd (passes other mem) (not_or.mpr ⟨unseen, wrong⟩)
    · rcases fits ds listed with small | right
      · have passes := passes ds listed
        rw [Nat.mod_eq_of_lt small] at passes
        exact passes.resolve_left ds.issuedAt_ne_zero
      · exact right

end Tx

def sampleStore (index : Bytes32) (named : index ≠ 0) (issuedAt : ℕ) (issued : issuedAt ≠ 0) :
    DataStore where
  dsPreImage := ⟨1, index, issuedAt, 1131, [0], 0, ⟨.secp256k1, 5⟩, 0⟩
  txHash := 0
  signature := []
  decoded := by
    refine ⟨0, ?_⟩
    simp only [DSPreImage.validate, require_of named,
      require_of (Nat.one_le_iff_ne_zero.mpr issued)]
    rfl
  valid := by
    simp only [DSPreImage.validateDeposit, DSPreImage.dataSize, require_of issued]
    rfl

def sampleMint : Tx where
  vin := []
  vout := [.dataStore (sampleStore 1 (by decide) (2 ^ 22 + 1) (by decide))]
  fee := 0
  txHash := none
  vin_length := by decide
  vout_length := by decide

/-- A store of the far future is mined in the first epoch. -/
theorem future_store_mined : sampleMint.validateIssuedAtForMining 1 = .ok () ∧ epochOf 1 = 1 ∧
    ∃ ds, TXOut.dataStore ds ∈ sampleMint.vout ∧ ds.dsPreImage.issuedAt = 2 ^ 22 + 1 :=
  ⟨by decide, rfl, _, mem_singleton.mpr rfl, rfl⟩

private theorem numEpochsEquation_ok (ran : numEpochsEquation dataSize deposit = .ok numEpochs) :
    dataSize ≤ MaxDataStoreSize ∧ numEpochs = deposit / (dataSize + BaseDatasizeConst) - 2 ∧
      numEpochs ≤ MaxUint32 := by
  simp only [numEpochsEquation, Uint256.div, Uint256.toUint32, ok_iff] at ran
  obtain ⟨_, small, _, ⟨_, _, rfl⟩, _, _, _, bound, rfl⟩ := ran
  exact ⟨small, rfl, bound⟩

namespace DSPreImage

def epochCost (b : DSPreImage) : ℕ := b.dataSize + BaseDatasizeConst

def paidEpochs (b : DSPreImage) : ℕ := b.deposit / b.epochCost - 2

/-- What a deposit that is accepted says. -/
structure Paid (b : DSPreImage) : Prop where
  issued : b.issuedAt ≠ 0
  data : b.rawData ≠ []
  size : b.dataSize ≤ MaxDataStoreSize
  counted : numEpochsEquation b.dataSize b.deposit = .ok b.paidEpochs
  word : b.paidEpochs ≤ MaxUint32
  exact : b.deposit = b.epochCost * (2 + b.paidEpochs)

variable {b : DSPreImage}

theorem Paid.of_validateDeposit (valid : b.validateDeposit = .ok ()) : b.Paid := by
  simp only [validateDeposit, baseDepositEquation, ok_iff] at valid
  obtain ⟨_, _, _, _, _, issued, _, size, _, small, numEpochs, counted, _, _, _, ⟨_, _, rfl⟩,
    exact⟩ := valid
  obtain ⟨_, rfl, word⟩ := numEpochsEquation_ok counted
  exact ⟨issued, fun nil => size (by rw [dataSize, nil]; rfl), small, counted, word, exact.symm⟩

private theorem epochCost_pos (b : DSPreImage) : 0 < b.epochCost := by
  unfold epochCost BaseDatasizeConst
  omega

theorem Paid.deposit_ne_zero (paid : b.Paid) : b.deposit ≠ 0 := by
  rw [paid.exact]
  exact Nat.mul_ne_zero (epochCost_pos b).ne' (by omega)

theorem Paid.isExpired_eq (paid : b.Paid) (currentHeight : ℕ) : b.isExpired currentHeight =
      .ok (decide ((b.issuedAt + b.paidEpochs + 1) % 2 ^ 32 ≤ epochOf currentHeight)) := by
  refine bind_ok_iff.mpr ⟨(b.issuedAt + b.paidEpochs + 1) % 2 ^ 32, ?_, rfl⟩
  simp only [epochOfExpiration, ok_iff]
  exact ⟨(), paid.deposit_ne_zero, (), paid.data, _, paid.counted, rfl⟩

theorem Paid.fits (paid : b.Paid) : b.deposit < 2 ^ 256 := by
  have cost : b.epochCost ≤ 2 ^ 22 := by
    have size := paid.size
    unfold MaxDataStoreSize at size
    unfold epochCost BaseDatasizeConst
    omega
  have epochs : 2 + b.paidEpochs ≤ 2 ^ 33 := by
    have word := paid.word
    unfold MaxUint32 at word
    omega
  calc b.deposit = b.epochCost * (2 + b.paidEpochs) := paid.exact
    _ ≤ 2 ^ 22 * 2 ^ 33 := Nat.mul_le_mul cost epochs
    _ < 2 ^ 256 := by norm_num

theorem Paid.remainingValue_eq (paid : b.Paid) (issued : b.issuedAt ≤ epochOf currentHeight) :
    b.remainingValue currentHeight = .ok (if b.issuedAt + b.paidEpochs < epochOf currentHeight then
      b.epochCost
      else b.deposit - (epochOf currentHeight - b.issuedAt) * b.epochCost) := by
  rw [remainingValue, require_of paid.issued, require_of paid.data, Nat.max_eq_left issued]
  rw [rewardDepositEquation, require_of issued]
  show (numEpochsEquation b.dataSize b.deposit >>= _) = _
  refine bind_ok_iff.mpr ⟨_, paid.counted, ?_⟩
  by_cases passed : b.issuedAt + b.paidEpochs < epochOf currentHeight
  · rw [if_pos passed, if_pos (by omega), epochCost, Nat.add_comm]
    rfl
  · rw [if_neg passed, if_neg (by omega)]
    have spent : b.epochCost * (2 + (epochOf currentHeight - b.issuedAt)) ≤ b.deposit := by
      rw [paid.exact]
      exact Nat.mul_le_mul_left _ (by omega)
    have rest : b.deposit - b.epochCost * (2 + (epochOf currentHeight - b.issuedAt)) +
        2 * (BaseDatasizeConst + b.dataSize)
        = b.deposit - (epochOf currentHeight - b.issuedAt) * b.epochCost := by
      rw [Nat.add_comm BaseDatasizeConst, ← epochCost, Nat.mul_add,
        Nat.mul_comm b.epochCost (_ - _)] at *
      omega
    refine bind_ok_iff.mpr ⟨_, bind_ok_iff.mpr ⟨(), require_of paid.size _, rfl⟩, ?_⟩
    refine bind_ok_iff.mpr ⟨_, Word.sub_ok_iff.mpr ⟨spent, rfl⟩, ?_⟩
    refine Word.add_ok_iff.mpr ⟨?_, rest⟩
    rw [← epochCost, rest]
    exact (Nat.sub_le _ _).trans_lt paid.fits

structure Agrees (env : Environment) (b : DSPreImage) (currentHeight : ℕ) : Prop where
  expired : b.isExpired currentHeight =
    .ok (decide (b.issuedAt + b.paidEpochs < epochOf currentHeight))
  kept : b.isExpired currentHeight = .ok false →
    b.remainingValue currentHeight =
      .ok (b.deposit - (epochOf currentHeight - b.issuedAt) * b.epochCost) ∧
      2 * b.epochCost ≤ b.deposit - (epochOf currentHeight - b.issuedAt) * b.epochCost
  reward : b.isExpired currentHeight = .ok true → b.remainingValue currentHeight = .ok b.epochCost
  cleanup : ∀ msg sig pk, env.validate sig.curveSpec msg sig.signature = .ok pk →
    env.getAccount pk ≠ b.owner.account →
    b.validateSignature env currentHeight msg sig = .ok () → ∃ value,
      b.remainingValue currentHeight = .ok value ∧ value ≤ b.epochCost

private theorem isExpired_of_foreign
    (signed : env.validate sig.curveSpec msg sig.signature = .ok pk)
    (foreign : env.getAccount pk ≠ b.owner.account)
    (accepted : b.validateSignature env currentHeight msg sig = .ok ()) :
    b.isExpired currentHeight = .ok true := by
  simp only [validateSignature, DataStoreOwner.validateSignature, signed, ok_iff] at accepted
  obtain ⟨isExpired, answer, _, _, pk', same, owned⟩ := accepted
  obtain rfl : pk = pk' := Except.ok.inj same
  rw [answer, owned.resolve_right foreign]

theorem Paid.kept_le (paid : b.Paid)
    (unexpired : epochOf currentHeight ≤ b.issuedAt + b.paidEpochs) :
    2 * b.epochCost ≤ b.deposit - (epochOf currentHeight - b.issuedAt) * b.epochCost := by
  have most : (2 + (epochOf currentHeight - b.issuedAt)) * b.epochCost ≤ b.deposit := by
    rw [paid.exact, Nat.mul_comm b.epochCost]
    exact Nat.mul_le_mul_right _ (by omega)
  rw [Nat.add_mul] at most
  omega

/-- Expiry and remaining value agree exactly if the epoch of expiration fits into 32 bits. -/
theorem agrees_iff (env : Environment) {b : DSPreImage} (valid : b.validateDeposit = .ok ())
    (word : currentHeight < 2 ^ 32) (issued : b.issuedAt ≤ epochOf currentHeight) :
    b.Agrees env currentHeight ↔ b.issuedAt + b.paidEpochs + 1 < 2 ^ 32 := by
  have paid := Paid.of_validateDeposit valid
  have last := epochOf_le word
  constructor
  · intro agrees
    have same := agrees.expired.symm.trans (paid.isExpired_eq currentHeight)
    rw [Except.ok.injEq, decide_eq_decide] at same
    by_contra wraps
    have most := paid.word
    unfold MaxUint32 at most
    omega
  · intro fits
    have expired : b.isExpired currentHeight =
        .ok (decide (b.issuedAt + b.paidEpochs < epochOf currentHeight)) := by
      rw [paid.isExpired_eq, Nat.mod_eq_of_lt fits]
      rfl
    have reward : b.isExpired currentHeight = .ok true → b.remainingValue currentHeight =
        .ok b.epochCost := by
      intro ended
      rw [expired, Except.ok.injEq, decide_eq_true_eq] at ended
      rw [paid.remainingValue_eq issued, if_pos ended]
    refine ⟨expired, fun unexpired => ?_, reward, fun msg sig pk signed foreign accepted => ?_⟩
    · rw [expired, Except.ok.injEq, decide_eq_false_iff_not] at unexpired
      rw [paid.remainingValue_eq issued, if_neg unexpired]
      exact ⟨rfl, paid.kept_le (Nat.le_of_not_lt unexpired)⟩
    · exact ⟨_, reward (isExpired_of_foreign signed foreign accepted), le_rfl⟩

/-- No fees, and every signature is of the account zero. -/
def feelessEnvironment : Environment :=
  ⟨fun _ => 0, fun _ => [], fun _ => [], fun _ => [], fun _ => 0, fun _ _ _ => .ok [], fun _ => 0,
    .ok 0, .ok 0, .ok 0⟩

theorem agrees_one_epoch :
    (sampleStore 1 (by decide) 1 (by decide)).dsPreImage.Agrees feelessEnvironment 1025 :=
  (agrees_iff _ (sampleStore 1 (by decide) 1 (by decide)).valid (by decide) (by decide)).mpr
    (by decide)

def sampleLongLived : DSPreImage := ⟨1, 1, 1, 377 * 2 ^ 32, [0], 0, ⟨.secp256k1, 5⟩, 0⟩

/-- In the epoch it is issued in, anyone may take the whole deposit. -/
theorem longLived_taken : sampleLongLived.validate = .ok () ∧
    sampleLongLived.validateDeposit = .ok () ∧ sampleLongLived.issuedAt ≤ epochOf 1 ∧
    sampleLongLived.paidEpochs = 2 ^ 32 - 2 ∧ sampleLongLived.isExpired 1 = .ok true ∧
    sampleLongLived.remainingValue 1 = .ok (377 * 2 ^ 32) ∧ sampleLongLived.epochCost = 377 := by
  decide

end DSPreImage

end AliceNet.Application
