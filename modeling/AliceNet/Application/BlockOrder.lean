import AliceNet.Application.TxHandler
import AliceNet.Application.TxHashes

/-! The order of the transactions of a block does not matter. -/

namespace AliceNet.Application

open BadgerTrie (KV SMT DefaultLeaf)
open Consensus (Fault)
open Outcome
open DepositHandler hiding isValid
open TxVec (validateFrom voutMap)
open List

variable {env : Environment} {s s' : State} {records : Bytes32 → Option TXOut} {chainID height : ℕ}
  {txs txs' : List Tx} {set set' ids ids' : List Bytes32} {id : Bytes32} {failure : Fault}

/-- None of the ids has been seen, and none comes twice. -/
structure Fresh (ids set : List Bytes32) : Prop where
  nodup : ids.Nodup
  unseen : ∀ id ∈ ids, id ∉ set

theorem Fresh.nil : Fresh [] set := ⟨.nil, nofun⟩

theorem fresh_append_iff :
    Fresh (ids ++ ids') set ↔ Fresh ids set ∧ Fresh ids' (ids.reverse ++ set) := by
  constructor
  · rintro ⟨nodup, unseen⟩
    rw [nodup_append] at nodup
    refine ⟨⟨nodup.1, fun id mem => unseen id (mem_append_left _ mem)⟩, nodup.2.1,
      fun id mem seen => ?_⟩
    rcases mem_append.mp seen with first | earlier
    · exact nodup.2.2 id (mem_reverse.mp first) id mem rfl
    · exact unseen id (mem_append_right _ mem) earlier
  · rintro ⟨first, second⟩
    refine ⟨nodup_append.mpr ⟨first.nodup, second.nodup, ?_⟩, fun id mem => ?_⟩
    · rintro id mem _ member' rfl
      exact second.unseen id member' (mem_append_left _ (mem_reverse.mpr mem))
    · rcases mem_append.mp mem with mem | mem
      · exact first.unseen id mem
      · exact fun seen => second.unseen id mem (mem_append_right _ seen)

private theorem insertUnique_ok_iff :
    insertUnique failure set id = .ok set' ↔ id ∉ set ∧ set' = id :: set := by
  simp only [insertUnique, ok_iff']
  exact and_congr_right fun _ => eq_comm

theorem foldlM_insertUnique_iff {ids : List Bytes32} :
    ids.foldlM (insertUnique failure) set = .ok set' ↔
      Fresh ids set ∧ set' = ids.reverse ++ set := by
  induction ids generalizing set with
  | nil =>
    rw [foldlM_nil, pure_ok_iff]
    exact ⟨fun same => ⟨.nil, same.symm⟩, fun ⟨_, same⟩ => same.symm⟩
  | cons id rest ih =>
    have joined : (id :: rest).reverse ++ set = rest.reverse ++ id :: set := by simp
    have single : Fresh [id] set ↔ id ∉ set :=
      ⟨fun fresh => fresh.unseen id mem_cons_self, fun unseen =>
        ⟨nodup_singleton _, by simpa using unseen⟩⟩
    rw [foldlM_cons, bind_ok_iff, joined, ← singleton_append, fresh_append_iff, single, and_assoc]
    constructor
    · rintro ⟨_, first, rest⟩
      obtain ⟨unseen, rfl⟩ := insertUnique_ok_iff.mp first
      exact ⟨unseen, ih.mp rest⟩
    · rintro ⟨unseen, rest⟩
      exact ⟨_, insertUnique_ok_iff.mpr ⟨unseen, rfl⟩, ih.mpr rest⟩

namespace Tx

def indexHashes (env : Environment) (b : Tx) : List Bytes32 :=
  (b.vout.filterMap TXOut.dataKey).map fun key => env.hash (key.1.marshalBinary ++ key.2.toBytes)

/-- All that a transaction enters in the set. -/
def marks (env : Environment) (b : Tx) : List Bytes32 :=
  b.indexHashes env ++ (b.vin.map (TXIn.name env) ++ b.vout.map (TXOut.utxoID env))

/-- The inputs can be named. -/
def Named (b : Tx) : Prop := ∀ txIn ∈ b.vin, txIn.txInPreImage.chainID ≠ 0

variable {b : Tx}

theorem validateDataStoreIndexes_ok_iff : b.validateDataStoreIndexes env set = .ok set' ↔
      Fresh (b.indexHashes env) set ∧ set' = (b.indexHashes env).reverse ++ set := by
  suffices same : b.validateDataStoreIndexes env set = (b.indexHashes env).foldlM (insertUnique
      (.invalid "tx.validateDataStoreIndexes: duplicate output index for datastore")) set by
    rw [same, foldlM_insertUnique_iff]
  unfold validateDataStoreIndexes indexHashes
  induction b.vout generalizing set with
  | nil => rfl
  | cons utxo rest ih =>
    cases utxo with
    | dataStore ds => exact bind_congr fun _ => ih
    | valueStore vs => exact ih

theorem utxoID_of_known {b : TXIn} (known : b.txInPreImage.chainID ≠ 0) :
    b.utxoID env = .ok (b.name env) := by
  rw [TXIn.utxoID, require_of known]
  rfl

theorem consumedUTXOID_ok_iff :
    b.consumedUTXOID env = .ok ids ↔ b.vin ≠ [] ∧ b.Named ∧ ids = b.vin.map (TXIn.name env) := by
  simp only [consumedUTXOID, ok_iff']
  refine and_congr_right fun _ => ⟨fun ran => ⟨fun txIn mem => ?_, ?_⟩, ?_⟩
  · obtain ⟨id, named⟩ := exists_mapM_ok_iff.mp ⟨ids, ran⟩ txIn mem
    simp only [TXIn.utxoID, ok_iff] at named
    exact named.choose_spec.1
  · exact mapM_ok_eq_map (fun _ _ => TXIn.utxoID_ok) ran
  · rintro ⟨named, rfl⟩
    exact mapM_of_ok fun txIn mem => utxoID_of_known (named txIn mem)

private theorem foldlM_names {vin : List TXIn} (named : ∀ txIn ∈ vin, txIn.txInPreImage.chainID ≠ 0)
    (set : List Bytes32) :
    vin.foldlM (fun opset txIn => do insertUnique failure opset (← txIn.utxoID env)) set =
      (vin.map (TXIn.name env)).foldlM (insertUnique failure) set := by
  induction vin generalizing set with
  | nil => rfl
  | cons txIn rest ih =>
    rw [forall_mem_cons] at named
    rw [foldlM_cons, map_cons, foldlM_cons, utxoID_of_known named.1]
    exact bind_congr fun set => ih named.2 set

theorem validateUnique_ok_iff (named : b.Named) :
    b.validateUnique env set = .ok set' ↔
      Fresh (b.vin.map (TXIn.name env) ++ b.vout.map (TXOut.utxoID env)) set ∧
      set' = (b.vin.map (TXIn.name env) ++ b.vout.map (TXOut.utxoID env)).reverse ++ set := by
  rw [validateUnique, bind_ok_iff, fresh_append_iff]
  simp only [foldlM_names named, ← foldlM_map, foldlM_insertUnique_iff]
  constructor
  · rintro ⟨_, ⟨first, rfl⟩, second, rfl⟩
    exact ⟨⟨first, second⟩, by simp⟩
  · rintro ⟨⟨first, second⟩, rfl⟩
    exact ⟨_, ⟨first, rfl⟩, second, by simp⟩

structure Judged (env : Environment) (height : ℕ) (table : Bytes32 → Option TXOut) (b b' : Tx) :
  Prop where
  inputs : b.vin ≠ []
  outputs : b.vout ≠ []
  named : b.Named
  indexes : Vout.validateTxOutIdx b.vout = .ok ()
  equal : (b.remember env).validateEqualVinVout height ((b.vin.map (TXIn.name env)).map table) =
    .ok ()
  fees : (b.remember env).validateFees env height ((b.vin.map (TXIn.name env)).map table) = .ok ()
  hash : (b.remember env).validateTxHash env = .ok b'

end Tx

variable {table : Bytes32 → Option TXOut} {utxos : List TXOut} {ut : UTXOTrie}

private theorem validateFrom_ok_iff : validateFrom env height table txs set = .ok out ↔
      Fresh (txs.flatMap (Tx.marks env)) set ∧ Forall₂ (Tx.Judged env height table) txs out := by
  induction txs generalizing set out with
  | nil =>
    rw [validateFrom, pure_ok_iff, forall₂_nil_left_iff, eq_comm]
    exact (and_iff_right Fresh.nil).symm
  | cons b rest ih =>
    rw [flatMap_cons, fresh_append_iff, Tx.marks, fresh_append_iff]
    simp only [validateFrom, Tx.validate, ok_iff, Prod.exists, Prod.mk.injEq,
      Tx.consumedUTXOID_ok_iff, Tx.validateDataStoreIndexes_ok_iff, forall₂_cons_left_iff, ih]
    constructor
    · rintro ⟨_, ⟨inputs, named, rfl⟩, _, _, ⟨_, _, _, outputs, _, indexes, _, ⟨fresh, rfl⟩, _,
        unique, _, equal, _, fees,
        b', hash, rfl, rfl⟩, others, ⟨freshRest, judged⟩, rfl⟩
      obtain ⟨fresh', rfl⟩ := (Tx.validateUnique_ok_iff named).mp unique
      refine ⟨⟨⟨fresh, fresh'⟩, ?_⟩, b', others, ⟨inputs, outputs, named, indexes, equal, fees,
        hash⟩, judged, rfl⟩
      rwa [reverse_append, append_assoc]
    · rintro ⟨⟨⟨fresh, fresh'⟩, freshRest⟩, b', others, judged, rest, rfl⟩
      rw [reverse_append, append_assoc] at freshRest
      exact ⟨_, ⟨judged.inputs, judged.named, rfl⟩, _, b',
        ⟨(), judged.inputs, (), judged.outputs, (), judged.indexes, _, ⟨fresh, rfl⟩, _,
        (Tx.validateUnique_ok_iff judged.named).mpr ⟨fresh', rfl⟩, (), judged.equal, (),
        judged.fees, _, judged.hash, rfl, rfl⟩, others, ⟨freshRest, rest⟩, rfl⟩

private theorem voutMap_append (utxos : List TXOut) (utxo : TXOut) :
    voutMap env (utxos ++ [utxo]) = Function.update (voutMap env utxos) (utxo.utxoID env)
      (some utxo) := by
  rw [voutMap, foldl_append]
  rfl

private theorem voutMap_ne_none_iff :
    voutMap env utxos id ≠ none ↔ id ∈ utxos.map (TXOut.utxoID env) := by
  induction utxos using reverseRecOn with
  | nil => simp [voutMap]
  | append_singleton rest utxo ih =>
    rw [voutMap_append, map_append, mem_append, ← ih, map_singleton, mem_singleton]
    by_cases same : id = utxo.utxoID env
    · simp [same]
    · simp [same]

private theorem perm_names (nodup : ids.Nodup) (length : utxos.length = ids.length)
    (found : ∀ id ∈ ids, voutMap env utxos id ≠ none) :
    ids.Perm (utxos.map (TXOut.utxoID env)) := by
  refine (nodup.subperm fun id mem => ?_).perm_of_length_le (by rw [length_map, length])
  exact voutMap_ne_none_iff.mp (found id mem)

private theorem voutMap_perm (perm : utxos.Perm utxos')
    (nodup : (utxos.map (TXOut.utxoID env)).Nodup) : voutMap env utxos = voutMap env utxos' := by
  refine perm.foldl_eq' (fun a mem b member' table => ?_) _
  by_cases same : a.utxoID env = b.utxoID env
  · rw [inj_on_of_nodup_map nodup mem member' same]
  · exact Function.update_comm same _ _ _

theorem Vout.sum_ok (ran : Vout.sum value items = .ok total)
    (mem : item ∈ items) : ∃ amount, value item = .ok amount := by
  unfold Vout.sum at ran
  generalize 0 = start at ran
  induction items generalizing start with
  | nil => cases mem
  | cons first rest ih =>
    simp only [foldlM_cons, bind_ok_iff] at ran
    obtain ⟨middle, ⟨amount, known, _⟩, others⟩ := ran
    rcases mem_cons.mp mem with rfl | mem
    · exact ⟨amount, known⟩
    · exact ih mem middle others

theorem Tx.Judged.found {b b' : Tx} (judged : b.Judged env height table b') :
    ∀ id ∈ b.vin.map (TXIn.name env), table id ≠ none := by
  intro id mem absent
  have equal := judged.equal
  simp only [Tx.validateEqualVinVout, bind_ok_iff] at equal
  obtain ⟨_, _, _, _, _, _, _, total, _⟩ := equal
  obtain ⟨_, known⟩ := Vout.sum_ok total (mem_map_of_mem mem)
  rw [absent] at known
  cases known

def Formed (txs : List Tx) : Prop := ∀ tx ∈ txs, tx.Named ∧ tx.vout ≠ []

theorem Formed.perm (formed : Formed txs) (perm : txs.Perm txs') : Formed txs' :=
  fun tx mem => formed tx (perm.mem_iff.mpr mem)

theorem Formed.inputs (formed : Formed txs) :
    ∀ txIn ∈ TxVec.inputs txs, txIn.txInPreImage.chainID ≠ 0 := by
  intro txIn mem
  obtain ⟨tx, listed, own⟩ := mem_flatMap.mp mem
  exact (formed tx listed).1 txIn own

theorem Formed.consumed (formed : Formed txs) :
    TxVec.consumedUTXOIDNoDeposits env txs = .ok (Block.consumed env txs) :=
  mapM_of_ok fun txIn mem => Tx.utxoID_of_known (formed.inputs txIn (mem_filter.mp mem).1)

theorem Formed.deposits (formed : Formed txs) :
    TxVec.consumedUTXOIDOnlyDeposits env txs = .ok (Block.deposits env txs) :=
  mapM_of_ok fun txIn mem => Tx.utxoID_of_known (formed.inputs txIn (mem_filter.mp mem).1)

theorem Formed.generated (formed : Formed txs) :
    TxVec.generatedUTXOID env txs = .ok ((TxVec.generatedUTXOs txs).map (TXOut.utxoID env)) := by
  rw [TxVec.generatedUTXOID, forM_ok_iff.mpr fun tx mem => require_of (formed tx mem).2 _]
  rfl

private theorem formed_of_preValidate (checked : TxVec.preValidateApplyState txs chainID = .ok ()) :
    Formed txs := by
  intro tx mem
  have passed := forM_ok_iff.mp checked tx mem
  simp only [Tx.validateChainID, ok_iff] at passed
  obtain ⟨_, _, _, outputs, _, _, _, inputs, _⟩ := passed
  refine ⟨fun txIn own => ?_, outputs⟩
  have known := forM_ok_iff.mp inputs txIn own
  simp only [TXIn.chainID, ok_iff] at known
  exact known.choose_spec.1.choose_spec.1

theorem Tx.Judged.formed {b b' : Tx} (judged : b.Judged env height table b') :
    b'.Named ∧ b'.vout ≠ [] := by
  have hash := judged.hash
  unfold Tx.validateTxHash at hash
  split at hash
  · cases hash
    exact ⟨judged.named, by simpa [Tx.remember] using judged.outputs⟩
  · rename_i unhashed
    simp only [ok_iff] at hash
    obtain ⟨_, hashed, _, _, _, _, rfl⟩ := hash
    obtain ⟨_, _, rfl⟩ := (Tx.TxHash_eq_ok_iff unhashed).mp hashed
    refine ⟨judged.named, ?_⟩
    simpa [Tx.setTxOutIdx, Vout.setTxOutIdx, Tx.remember] using judged.outputs

theorem DepositHandler.get_ok_iff :
    get s records ids = .ok (found, [], []) ↔
      (∀ id ∈ ids, records id ≠ none ∧ s.trie.contains id = .ok false) ∧
        found = ids.filterMap records := by
  induction ids generalizing found with
  | nil =>
    rw [get, pure_ok_iff]
    simp [eq_comm]
  | cons id rest ih =>
    rw [forall_mem_cons, get]
    cases record : records id with
    | none => simp [map_ok_iff]
    | some utxo =>
      simp only [filterMap_cons, record, ok_iff']
      constructor
      · rintro ⟨isSpent, known, found', missing, spent, others, done⟩
        cases isSpent with
        | true => simp [pure_ok_iff] at done
        | false =>
          obtain ⟨rfl, rfl, rfl⟩ := done
          obtain ⟨each, rfl⟩ := ih.mp others
          exact ⟨⟨⟨by simp, known⟩, each⟩, rfl⟩
      · rintro ⟨⟨⟨_, known⟩, each⟩, rfl⟩
        exact ⟨false, known, _, _, _, ih.mpr ⟨each, rfl⟩, rfl⟩

theorem DepositHandler.isValid_ok_iff (formed : Formed txs) :
    isValid env s records txs = .ok found ↔
      (∀ id ∈ Block.deposits env txs, records id ≠ none ∧ s.trie.contains id = .ok false) ∧
        found = (Block.deposits env txs).filterMap records := by
  rw [← get_ok_iff, isValid, formed.deposits]
  simp only [ok_iff, Prod.exists, Except.ok.injEq, exists_eq_left', length_eq_zero_iff]
  constructor
  · rintro ⟨_, _, _, got, _, rfl, _, rfl, rfl⟩
    exact got
  · intro got
    exact ⟨_, _, _, got, (), rfl, (), rfl, rfl⟩

private theorem isValid_of_checked (formed : Formed txs)
    (checked : Checked env s txs height deposits consumed) :
    UTXOHandler.isValid env s txs height deposits = .ok consumed := by
  have passes : ∀ {ids : List Bytes32} {expected : Bool} {failure : Fault},
      (∀ id ∈ ids, s.trie.contains id = .ok expected) →
      (ids.forM fun id => do require ((← s.trie.contains id) = expected) failure) =
          .ok PUnit.unit := by
    intro ids expected failure known
    refine forM_ok_iff.mpr fun id mem => ?_
    rw [known id mem]
    exact require_of rfl failure
  obtain ⟨seen, indexes⟩ := checked.indexes
  have missing : (Block.consumed env txs).filter (fun id => (s.utxos id).isNone) = [] := by
    refine filter_eq_nil_iff.mpr fun id mem => ?_
    simpa using checked.recorded id mem
  rw [UTXOHandler.isValid, indexes, formed.deposits, formed.generated, formed.consumed]
  simp only [ok_iff, Except.ok.injEq, exists_eq_left', UTXOHandler.get]
  refine ⟨(), forM_ok_iff.mpr checked.each, (), passes checked.unspent, (), passes ?_, (),
    passes checked.present, (), require_of missing _, checked.found.symm⟩
  exact forall_mem_map.mpr checked.fresh

theorem inputs_perm (perm : txs.Perm txs') : (TxVec.inputs txs).Perm (TxVec.inputs txs') :=
    perm.flatMap_right _

private theorem deposits_perm (perm : txs.Perm txs') :
    (Block.deposits env txs).Perm (Block.deposits env txs') :=
  ((inputs_perm perm).filter _).map _

theorem consumed_perm (perm : txs.Perm txs') :
    (Block.consumed env txs).Perm (Block.consumed env txs') :=
  ((inputs_perm perm).filter _).map _

private theorem deposits_append_consumed :
    (Block.deposits env txs ++ Block.consumed env txs).Perm
      ((TxVec.inputs txs).map (TXIn.name env)) := by
  rw [Block.deposits, Block.consumed, ← map_append]
  exact (filter_append_perm _ _).map _

theorem Fresh.names (fresh : Fresh (txs.flatMap (Tx.marks env)) set) :
    ((TxVec.inputs txs).map (TXIn.name env)).Nodup := by
  rw [TxVec.inputs, map_flatMap]
  refine fresh.nodup.sublist (Sublist.flatMap_right _ fun tx _ => ?_)
  exact (sublist_append_left _ _).trans (sublist_append_right _ _)

private theorem exists_validateDataStoreIndexes
    (fresh : Fresh (txs.flatMap (Tx.indexHashes env)) set) :
    ∃ seen, TxVec.validateDataStoreIndexes env txs set = .ok seen := by
  induction txs generalizing set with
  | nil => exact ⟨set, rfl⟩
  | cons tx rest ih =>
    rw [flatMap_cons, fresh_append_iff] at fresh
    obtain ⟨seen, others⟩ := ih fresh.2
    exact ⟨seen, bind_ok_iff.mpr ⟨_, Tx.validateDataStoreIndexes_ok_iff.mpr ⟨fresh.1, rfl⟩, others⟩⟩

theorem validate_perm {out : List Tx} (perm : txs.Perm txs')
    (ran : TxHandler.validate env s records chainID height txs = .ok out) :
    Formed out ∧ ∃ out', TxHandler.validate env s records chainID height txs' = .ok out' ∧
      out.Perm out' := by
  simp only [TxHandler.validate, TxHandler.isValid, ok_iff] at ran ⊢
  obtain ⟨_, chain, _, ⟨deposits, depositsValid, consumed, valid, rfl⟩, validated⟩ := ran
  have formed := formed_of_preValidate chain
  obtain ⟨unspent, rfl⟩ := (isValid_ok_iff formed).mp depositsValid
  have checked := isValid_ok valid
  obtain rfl := checked.found
  obtain ⟨fresh, judged⟩ := validateFrom_ok_iff.mp validated
  -- no two of the consumed outputs have one id
  have found := ((forall₂_and_left _ _).mp (judged.imp fun _ _ judged => ⟨judged.found, judged⟩)).1
  have distinct :
      (((Block.deposits env txs).filterMap records ++ (Block.consumed env txs).filterMap
      s.utxos).map
      (TXOut.utxoID env)).Nodup := by
    refine (perm_names fresh.names ?_ ?_).nodup fresh.names
    · rw [← deposits_append_consumed.length_eq, length_append, length_append,
        filterMap_length_eq_length.mpr fun id mem =>
          Option.isSome_iff_ne_none.mpr (unspent id mem).1,
        filterMap_length_eq_length.mpr fun id mem =>
          Option.isSome_iff_ne_none.mpr (checked.recorded id mem)]
    · intro id mem
      rw [TxVec.inputs, map_flatMap, mem_flatMap] at mem
      obtain ⟨tx, listed, own⟩ := mem
      exact found tx listed id own
  have depositTable := voutMap_perm ((deposits_perm perm).filterMap records)
    (distinct.sublist ((sublist_append_left _ _).map _))
  have table :=
    voutMap_perm (((deposits_perm perm).filterMap records).append
    ((consumed_perm perm).filterMap s.utxos)) distinct
  have fresh' : Fresh (txs'.flatMap (Tx.marks env)) [] :=
    ⟨(perm.flatMap_right _).nodup fresh.nodup, fun _ _ => not_mem_nil⟩
  have checked' : Checked env s txs' height ((Block.deposits env txs').filterMap records)
      ((Block.consumed env txs').filterMap s.utxos) := by
    refine ⟨exists_validateDataStoreIndexes ⟨fresh'.nodup.sublist ?_, fun _ _ => not_mem_nil⟩, ?_,
      ?_, ?_, ?_, ?_, rfl⟩
    · exact Sublist.flatMap_right _ fun tx _ => sublist_append_left _ _
    · exact fun tx mem => depositTable ▸ checked.each tx (perm.mem_iff.mpr mem)
    · exact fun id mem => checked.unspent id ((deposits_perm perm).mem_iff.mpr mem)
    · exact fun utxo mem => checked.fresh utxo ((perm.flatMap_right _).mem_iff.mpr mem)
    · exact fun id mem => checked.present id ((consumed_perm perm).mem_iff.mpr mem)
    · exact fun id mem => checked.recorded id ((consumed_perm perm).mem_iff.mpr mem)
  obtain ⟨out', judged', permOut⟩ := perm_comp_forall₂ perm.symm judged
  refine ⟨?_, out',
    ⟨(), forM_ok_perm perm chain, _, ⟨_, ?_, _, isValid_of_checked (formed.perm perm) checked',
    rfl⟩, ?_⟩, permOut.symm⟩
  · exact ((forall₂_and_left _ _).mp (judged.flip.imp fun _ _ judged => ⟨judged.formed, judged⟩)).1
  · refine (isValid_ok_iff (formed.perm perm)).mpr ⟨fun id mem => ?_, rfl⟩
    exact unspent id ((deposits_perm perm).mem_iff.mpr mem)
  · exact validateFrom_ok_iff.mpr ⟨fresh', table ▸ judged'⟩

private theorem dropFromIndexes_comm (apart : a ≠ b)
    (ran : (UTXOHandler.dropFromIndexes s a >>= fun t => UTXOHandler.dropFromIndexes t b) =
      .ok s') :
    (UTXOHandler.dropFromIndexes s b >>= fun t => UTXOHandler.dropFromIndexes t a) = .ok s' := by
  obtain ⟨t, first, second⟩ := bind_ok_iff.mp ran
  have records := (dropFromIndexes_frame first).1
  refine bind_ok_iff.mpr ?_
  unfold UTXOHandler.dropFromIndexes at first second ⊢
  rw [records] at second
  -- the indexes of one kind are dropped from in either order, those of the other are left alone
  split at first <;> split at second
  all_goals first
    | cases first
    | cases second
    | skip
  all_goals
    rename_i recordA _ _ recordB
    simp only [ok_iff] at first second ⊢
  · obtain ⟨exp, dropExp, data, dropData, rfl⟩ := first
    obtain ⟨exp', dropExp', data', dropData', rfl⟩ := second
    obtain ⟨expB, firstExp, secondExp⟩ := ReverseIndex.drop_comm apart dropExp dropExp'
    obtain ⟨dataB, firstData, secondData⟩ := ReverseIndex.drop_comm apart dropData dropData'
    exact ⟨_, ⟨expB, firstExp, dataB, firstData, rfl⟩, by
      rw [recordA]; exact bind_ok_iff.mpr ⟨_, secondExp, bind_ok_iff.mpr ⟨_, secondData, rfl⟩⟩⟩
  · obtain ⟨exp, dropExp, data, dropData, rfl⟩ := first
    obtain ⟨value, dropValue, rfl⟩ := second
    exact ⟨_, ⟨value, dropValue, rfl⟩, by
      rw [recordA]; exact bind_ok_iff.mpr ⟨_, dropExp, bind_ok_iff.mpr ⟨_, dropData, rfl⟩⟩⟩
  · obtain ⟨value, dropValue, rfl⟩ := first
    obtain ⟨exp, dropExp, data, dropData, rfl⟩ := second
    exact ⟨_, ⟨exp, dropExp, data, dropData, rfl⟩, by rw [recordA]; exact bind_ok_iff.mpr ⟨_,
      dropValue, rfl⟩⟩
  · obtain ⟨value, dropValue, rfl⟩ := first
    obtain ⟨value', dropValue', rfl⟩ := second
    obtain ⟨valueB, firstValue, secondValue⟩ := ReverseIndex.drop_comm apart dropValue dropValue'
    exact ⟨_, ⟨valueB, firstValue, rfl⟩, by rw [recordA]; exact bind_ok_iff.mpr ⟨_, secondValue,
      rfl⟩⟩

/-- The database with an output entered. -/
def State.enter (env : Environment) (s : State) (utxo : TXOut) : State where
  trie := s.trie
  utxos := Function.update s.utxos (utxo.utxoID env) (some utxo.stored)
  expIndex := s.expIndex.file ExpSizeIndex.key ExpSizeIndex.entry (utxo.utxoID env)
    (utxo.expRef env)
  dataIndex := s.dataIndex.file DataIndex.key DataIndex.entry (utxo.utxoID env) utxo.dataKey
  valueIndex := s.valueIndex.file ValueIndex.key ValueIndex.entry (utxo.utxoID env)
    (utxo.valueRef (utxo.utxoID env))

/-- What the indexes ask of an output by itself. -/
def TXOut.Storable : TXOut → Prop
  | .dataStore ds => ∃ epoch, ds.dsPreImage.epochOfExpiration = .ok epoch
  | .valueStore vs => vs.vsPreImage.value ≠ 0

private theorem addOne_ok_iff :
    UTXOHandler.addOne env s utxo = .ok s' ↔ s.trie.contains (utxo.utxoID env) = .ok false ∧
      utxo.Storable ∧
      (∀ key ∈ utxo.dataKey, s.dataIndex.table key = none) ∧ s' = s.enter env utxo := by
  simp only [UTXOHandler.addOne, ok_iff]
  constructor
  · rintro ⟨_, absent, _, rfl, _, entered, _, _, rfl⟩
    refine ⟨absent, ?_⟩
    cases utxo with
    | dataStore ds =>
      simp only [UTXOHandler.addToIndexes, TXOut.marshalBinary, DataIndex.Add, ok_iff] at entered
      obtain ⟨epoch, expires, size, ⟨_, _, rfl⟩, dataIndex, added, rfl⟩ := entered
      split at added
      · cases added
      · rename_i vacant
        cases added
        refine ⟨⟨epoch, expires⟩, ?_, ?_⟩
        · rintro _ ⟨⟩
          exact vacant
        · simp only [State.enter, TXOut.expRef, expires]
          rfl
    | valueStore vs =>
      simp only [UTXOHandler.addToIndexes, ValueStore.value, ok_iff] at entered
      obtain ⟨_, ⟨_, pos, rfl⟩, rfl⟩ := entered
      exact ⟨pos, fun key found => absurd found.symm (Option.some_ne_none key), rfl⟩
  · rintro ⟨absent, storable, vacant, rfl⟩
    refine ⟨false, absent, (), rfl, ?_⟩
    cases utxo with
    | dataStore ds =>
      obtain ⟨epoch, expires⟩ := storable
      have size : (TXOut.dataStore ds).marshalBinary env = .ok (env.objSize (.dataStore ds)) := by
        rw [TXOut.marshalBinary, ds.valid]
        rfl
      have added : s.dataIndex.Add ((TXOut.dataStore ds).utxoID env) (ds.dsPreImage.owner,
          ds.dsPreImage.index) =
          .ok (s.dataIndex.put DataIndex.key DataIndex.entry ((TXOut.dataStore ds).utxoID env)
            (ds.dsPreImage.owner, ds.dsPreImage.index)) := by
        rw [DataIndex.Add, vacant _ rfl]
      refine ⟨_,
        bind_ok_iff.mpr ⟨epoch, expires,
        bind_ok_iff.mpr ⟨_, size, bind_ok_iff.mpr ⟨_, added, rfl⟩⟩⟩, _, size, ?_⟩
      simp only [State.enter, TXOut.expRef, expires]
      rfl
    | valueStore vs =>
      have value : vs.value = .ok vs.vsPreImage.value :=
        bind_ok_iff.mpr ⟨(), require_ok_iff.mpr storable, rfl⟩
      exact ⟨_, bind_ok_iff.mpr ⟨_, value, rfl⟩, _, rfl, rfl⟩

private theorem addOne_comm (apart : a.utxoID env ≠ b.utxoID env)
    (ran : (UTXOHandler.addOne env s a >>= fun t => UTXOHandler.addOne env t b) = .ok s') :
    (UTXOHandler.addOne env s b >>= fun t => UTXOHandler.addOne env t a) = .ok s' := by
  simp only [bind_ok_iff, addOne_ok_iff] at ran ⊢
  obtain ⟨_, ⟨absent, storable, vacant, rfl⟩, absent', storable', vacant', rfl⟩ := ran
  have vacantB := fun key mem => ReverseIndex.file_table_eq_none_iff.mp (vacant' key mem)
  have keys : ∀ key ∈ a.dataKey, ∀ key' ∈ b.dataKey, key ≠ key' := fun key mem key' member' =>
    (vacantB key' member').2 key mem
  refine ⟨_, ⟨absent', storable', fun key mem => (vacantB key mem).1, rfl⟩, absent, storable,
    fun key mem => ?_, ?_⟩
  · refine ReverseIndex.file_table_eq_none_iff.mpr ⟨vacant key mem, fun key' member' => ?_⟩
    exact (keys key mem key' member').symm
  · have keyed : ∀ {utxo : TXOut} {id : Bytes32}, ∀ ref ∈ utxo.valueRef id, ref.2.2 = id := by
      rintro (ds | vs) id ref ⟨⟩
      rfl
    -- the keys of the two other indexes hold the ids
    have exp := @ReverseIndex.file_comm _ _ _ _ _ _ ExpSizeIndex.key ExpSizeIndex.entry s.expIndex _
      _ (a.expRef env) (b.expRef env) apart fun _ _ _ _ same => apart (congrArg (·.2.2) same)
    have data := @ReverseIndex.file_comm _ _ _ _ _ _ DataIndex.key DataIndex.entry s.dataIndex _ _
      a.dataKey b.dataKey apart keys
    have value := @ReverseIndex.file_comm _ _ _ _ _ _ ValueIndex.key ValueIndex.entry s.valueIndex _
      _
      (a.valueRef (a.utxoID env)) (b.valueRef (b.utxoID env)) apart fun ref mem ref' member' same =>
          apart (by
        rw [← keyed ref mem, ← keyed ref' member']
        exact congrArg (·.2.2) same)
    simp only [State.enter, Function.update_comm apart, exp, data, value]

theorem Formed.add (formed : Formed txs) (ut : UTXOTrie) :
    ut.add env txs = (ut.getCurrentTrie.Update env.hash (Block.changes env txs)).mapError
      ofTrie := by
  have hashes : TxVec.generatedPreHash env txs =
      .ok ((TxVec.generatedUTXOs txs).map (TXOut.preHash env)) := by
    rw [TxVec.generatedPreHash, forM_ok_iff.mpr fun tx mem => require_of (formed tx mem).2 _]
    rfl
  have depositHashes : TxVec.consumedPreHashOnlyDeposits env txs =
      .ok (((TxVec.inputs txs).filter TXIn.isDeposit).map
      fun b => env.hash (env.marshalTXInPreImage b.txInPreImage)) := by
    refine mapM_of_ok fun txIn mem => ?_
    rw [TXIn.preHash, require_of (formed.inputs txIn (mem_filter.mp mem).1)]
    rfl
  have batch : ∃ kvs, UTXOTrie.batch env txs = .ok kvs := by
    rw [UTXOTrie.batch, formed.consumed, formed.generated, hashes, formed.deposits, depositHashes]
    exact ⟨_, rfl⟩
  obtain ⟨kvs, batch⟩ := batch
  rw [UTXOTrie.add, batch, ← batch_ok batch]
  rfl

private theorem changes_perm (perm : txs.Perm txs')
    (distinct : ((Block.changes env txs).map KV.key).Nodup) :
    Block.changes env txs' = Block.changes env txs := by
  have same : (Block.changes env txs').Perm (Block.changes env txs) := by
    refine (perm_insertionSort _ _).trans (Perm.trans ?_ (perm_insertionSort _ _).symm)
    refine ((perm.symm.flatMap_right _).map _).append
      (((inputs_perm perm.symm).filter _).map _) |>.append ?_
    exact (consumed_perm perm.symm).map _
  refine same.eq_of_pairwise (fun a b mem member' le ge => ?_) (pairwise_insertionSort _ _)
    (pairwise_insertionSort _ _)
  exact inj_on_of_nodup_map distinct (same.mem_iff.mp mem) member' (BitVec.le_antisymm le ge)

theorem add_perm (formed : Formed txs) (perm : txs.Perm txs')
    (added : ut.add env txs = .ok current) : ut.add env txs' = .ok current := by
  rw [formed.add, mapError_ok_iff] at added
  rw [(formed.perm perm).add, mapError_ok_iff,
    changes_perm perm (BadgerTrie.Update_checked added).1, added]

theorem perm_nil_iff (perm : txs.Perm txs') : txs' = [] ↔ txs = [] :=
  ⟨fun empty => (empty ▸ perm).eq_nil, fun empty => (empty ▸ perm).symm.eq_nil⟩

theorem UTXOHandler.applyState_perm (formed : Formed txs) (perm : txs.Perm txs')
    (ran : UTXOHandler.applyState env s txs height = .ok result) :
    UTXOHandler.applyState env s txs' height = .ok result := by
  by_cases empty : txs = []
  · obtain rfl : txs' = txs := by rw [empty, perm_nil_iff perm, empty]
    exact ran
  rw [UTXOHandler.applyState, if_neg empty, formed.consumed] at ran
  rw [UTXOHandler.applyState, if_neg (mt (perm_nil_iff perm).mp empty), (formed.perm perm).consumed]
  simp only [bind_ok_iff, Except.ok.injEq, exists_eq_left', UTXOTrie.applyState, if_neg empty,
    if_neg (mt (perm_nil_iff perm).mp empty)] at ran ⊢
  obtain ⟨dropped, drops, added, adds, applied, ⟨current, updated, roots⟩, done⟩ := ran
  have update := updated
  rw [formed.add, mapError_ok_iff] at update
  have distinct := keys_changes_perm.nodup_iff.mp (BadgerTrie.Update_checked update).1
  rw [nodup_append, nodup_append] at distinct
  refine ⟨dropped, ?_, added, ?_, applied, ⟨current, add_perm formed perm updated, roots⟩, done⟩
  · exact foldlM_ok_perm dropFromIndexes (· ≠ ·) Ne.symm (fun _ _ apart _ _ =>
      dropFromIndexes_comm apart)
      (consumed_perm perm) distinct.2.1 drops
  · refine foldlM_ok_perm (addOne env) (fun a b => a.utxoID env ≠ b.utxoID env) Ne.symm
      (fun _ _ apart _ _ => addOne_comm apart) (perm.flatMap_right _) ?_ adds
    exact pairwise_map.mp distinct.1.1

theorem TxHandler.applyState_perm (perm : txs.Perm txs')
    (ran : TxHandler.applyState env s records chainID height txs = .ok result) :
    TxHandler.applyState env s records chainID height txs' = .ok result := by
  by_cases empty : txs = []
  · obtain rfl : txs' = txs := by rw [empty, perm_nil_iff perm, empty]
    exact ran
  rw [TxHandler.applyState, if_neg empty] at ran
  rw [TxHandler.applyState, if_neg (mt (perm_nil_iff perm).mp empty)]
  simp only [bind_ok_iff] at ran ⊢
  obtain ⟨out, valid, applied, apply, _, mined, done⟩ := ran
  obtain ⟨formed, out', valid', permOut⟩ := validate_perm perm valid
  exact ⟨out', valid', applied, UTXOHandler.applyState_perm formed permOut apply, (),
    forM_ok_perm permOut mined, done⟩

private theorem getStateRootForProposal_perm (formed : Formed txs) (perm : txs.Perm txs')
    (ran : ut.getStateRootForProposal env txs = .ok root) :
    ut.getStateRootForProposal env txs' = .ok root := by
  unfold UTXOTrie.getStateRootForProposal at ran ⊢
  by_cases empty : txs = []
  · rw [if_pos empty] at ran
    rwa [if_pos ((perm_nil_iff perm).mpr empty)]
  · rw [if_neg empty] at ran
    rw [if_neg (mt (perm_nil_iff perm).mp empty)]
    obtain ⟨current, added, done⟩ := bind_ok_iff.mp ran
    exact bind_ok_iff.mpr ⟨current, add_perm formed perm added, done⟩

private theorem getStateRootForProposal_ne_invalid (formed : Formed txs) (text : String) :
    ut.getStateRootForProposal env txs ≠ .error (.invalid text) := by
  unfold UTXOTrie.getStateRootForProposal
  split
  · nofun
  · rw [formed.add]
    cases ut.getCurrentTrie.Update env.hash (Block.changes env txs) with
    | ok current => nofun
    | error failure => cases failure <;> nofun

private theorem isValid_perm (perm : txs.Perm txs')
    (ran : isValid env s records chainID height stateHash txs = .ok answer) :
    isValid env s records chainID height stateHash txs' = .ok answer := by
  by_cases empty : txs = []
  · obtain rfl : txs' = txs := by rw [empty, perm_nil_iff perm, empty]
    exact ran
  rw [isValid, if_neg empty] at ran
  rw [isValid, if_neg (mt (perm_nil_iff perm).mp empty)]
  obtain ⟨out, valid, answered⟩ := bind_ok_iff.mp ran
  obtain ⟨formed, out', valid', permOut⟩ := validate_perm perm valid
  refine bind_ok_iff.mpr ⟨out', valid', ?_⟩
  cases found : s.trie.getStateRootForProposal env out with
  | ok root =>
    rw [found] at answered
    rw [getStateRootForProposal_perm formed permOut found]
    exact answered
  | error failure =>
    rw [found] at answered
    cases failure with
    | invalid text => exact absurd found (getStateRootForProposal_ne_invalid formed text)
    | _ => cases answered

/-- Whether a block is valid, the state root and the records and indexes that it leaves do not
depend on the order of its transactions. -/
theorem block_order_irrelevant (env : Environment) (s : State) (records : Bytes32 → Option TXOut)
    (chainID height : ℕ) (stateHash : Option Bytes32) (perm : txs.Perm txs') :
    (∀ answer, isValid env s records chainID height stateHash txs = .ok answer ↔
      isValid env s records chainID height stateHash txs' = .ok answer) ∧
    ∀ root after, TxHandler.applyState env s records chainID height txs = .ok (root, after) ↔
      TxHandler.applyState env s records chainID height txs' = .ok (root, after) :=
  ⟨fun _ => ⟨isValid_perm perm, isValid_perm perm.symm⟩,
    fun _ _ => ⟨TxHandler.applyState_perm perm, TxHandler.applyState_perm perm.symm⟩⟩

def samplePayout (n : ℕ) : Tx :=
  let paid := fun txHash => sampleTransfer txHash (BadgerTrie.sampleKey n) MaxUint32 10
  match (paid 0).TxHash sampleEnvironment with
  | .ok tx => paid (tx.txHash.getD 0)
  | .error _ => paid 0

def sampleDeposits (id : Bytes32) : Option TXOut := some (samplePayment id MaxUint32 10)

/-- Two deposits are spent, in either order. -/
theorem block_order_irrelevant_swapped : ∃ root after,
    isValid sampleEnvironment .empty sampleDeposits 1 2 root [samplePayout 1, samplePayout 2] =
      .ok true ∧
    isValid sampleEnvironment .empty sampleDeposits 1 2 root [samplePayout 2, samplePayout 1] =
      .ok true ∧
    TxHandler.applyState sampleEnvironment .empty sampleDeposits 1 2
      [samplePayout 1, samplePayout 2] = .ok (root, after) ∧
    TxHandler.applyState sampleEnvironment .empty sampleDeposits 1 2
      [samplePayout 2, samplePayout 1] = .ok (root, after) := by
  have checked : (do
      let result ← TxHandler.applyState sampleEnvironment .empty sampleDeposits 1 2
        [samplePayout 1, samplePayout 2]
      isValid sampleEnvironment .empty sampleDeposits 1 2 result.1 [samplePayout 1,
        samplePayout 2]) = (.ok true : Except Fault Bool) := by
    decide +kernel
  obtain ⟨result, applied, valid⟩ := bind_ok_iff.mp checked
  have swapped := block_order_irrelevant sampleEnvironment .empty sampleDeposits 1 2 result.1
    (.swap (samplePayout 2) (samplePayout 1) [])
  exact ⟨result.1, result.2, valid, (swapped.1 true).mp valid, applied,
    (swapped.2 result.1 result.2).mp applied⟩

end AliceNet.Application
