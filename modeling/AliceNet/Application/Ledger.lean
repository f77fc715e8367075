import AliceNet.Application.UTXOHandler
import AliceNet.BadgerTrie.SyncRun
import AliceNet.Library.CoinSet

/-! The ledger that the handler of unspent outputs keeps. -/

namespace AliceNet.Application

open BadgerTrie (KV SMT DefaultLeaf Separated Sorted applyKVs Backed Holds)
open Consensus (Fault)
open Outcome Function Option
open List

/-- The outputs, the deposits that are spent, all ids there ever were, and the map of the trie. -/
structure Ledger where
  live : CoinSet Bytes32 TXOut
  spent : Finset Bytes32
  issued : Finset Bytes32
  entries : Bytes32 → Option Bytes32

def Ledger.empty : Ledger := ⟨∅, ∅, ∅, fun _ => none⟩

variable (env : Environment)

def TXIn.name (b : TXIn) : Bytes32 :=
  makeUTXOID env b.txInPreImage.consumedTxHash b.txInPreImage.consumedTxIdx

namespace Block

def consumed (txs : List Tx) : List Bytes32 :=
  ((TxVec.inputs txs).filter fun txIn => !txIn.isDeposit).map (TXIn.name env)

def deposits (txs : List Tx) : List Bytes32 :=
  ((TxVec.inputs txs).filter TXIn.isDeposit).map (TXIn.name env)

def created (txs : List Tx) : List (Bytes32 × TXOut) :=
  (TxVec.generatedUTXOs txs).map fun utxo => (utxo.utxoID env, utxo.stored)

/-- The changes to the trie, sorted. -/
def changes (txs : List Tx) : List KV :=
  sortKVs ((TxVec.generatedUTXOs txs).map (fun utxo => ⟨utxo.utxoID env, utxo.preHash env⟩) ++
    ((TxVec.inputs txs).filter TXIn.isDeposit).map
      (fun txIn => ⟨txIn.name env, env.hash (env.marshalTXInPreImage txIn.txInPreImage)⟩) ++
    (consumed env txs).map fun key => ⟨key, DefaultLeaf env.hash⟩)

end Block

def Ledger.apply (l : Ledger) (txs : List Tx) : Ledger where
  live := (l.live.spend (Block.consumed env txs)).create (Block.created env txs)
  spent := l.spent ∪ (Block.deposits env txs).toFinset
  issued := l.issued ∪ ((Block.created env txs).map Prod.fst).toFinset
  entries := applyKVs env.hash (Block.changes env txs) l.entries

def TXOut.expRef : TXOut → Option (ℕ × ℕ)
  | .dataStore ds => match ds.dsPreImage.epochOfExpiration with
    | .ok epoch => some (epoch, MaxUint32 - env.objSize (.dataStore ds) % 2 ^ 32)
    | .error _ => none
  | .valueStore _ => none

def TXOut.valueRef (utxoID : Bytes32) : TXOut → Option (Owner × ℕ × Bytes32)
  | .dataStore _ => none
  | .valueStore vs => some (vs.vsPreImage.owner, vs.vsPreImage.value, utxoID)

structure Indexed (s : State) (live : CoinSet Bytes32 TXOut) : Prop where
  records : ∀ id utxo, live.lookup id = some utxo → s.utxos id = some utxo
  exp : s.expIndex.Exact ExpSizeIndex.key ExpSizeIndex.entry fun id =>
    (live.lookup id).bind (TXOut.expRef env)
  data : s.dataIndex.Exact DataIndex.key DataIndex.entry fun id =>
    (live.lookup id).bind TXOut.dataKey
  value : s.valueIndex.Exact ValueIndex.key ValueIndex.entry fun id =>
    (live.lookup id).bind (TXOut.valueRef id)

variable {env} {s s' : State} {live : CoinSet Bytes32 TXOut} {id : Bytes32}

theorem Indexed.empty : Indexed env State.empty ∅ where
  records := by simp
  exp := .nil
  data := .nil
  value := .nil

theorem Indexed.congr (indexed : Indexed env s live) (utxos : s'.utxos = s.utxos)
    (exp : s'.expIndex = s.expIndex) (data : s'.dataIndex = s.dataIndex)
    (value : s'.valueIndex = s.valueIndex) : Indexed env s' live where
  records := by rw [utxos]; exact indexed.records
  exp := by rw [exp]; exact indexed.exp
  data := by rw [data]; exact indexed.data
  value := by rw [value]; exact indexed.value

private theorem lookup_insert_bind (coins : CoinSet Bytes32 TXOut) (id : Bytes32) (utxo : TXOut)
    (f : Bytes32 → TXOut → Option ρ) :
    (fun other => ((coins.insert id utxo).lookup other).bind (f other)) =
      update (fun other => (coins.lookup other).bind (f other)) id (f id utxo) := by
  funext other
  by_cases same : other = id
  · subst same
    rw [update_self, Finmap.lookup_insert, bind_some]
  · rw [update_of_ne same, Finmap.lookup_insert_of_ne _ same]

private theorem lookup_erase_bind (coins : CoinSet Bytes32 TXOut) (id : Bytes32)
    (f : Bytes32 → TXOut → Option ρ) :
    (fun other => ((coins.erase id).lookup other).bind (f other)) =
      update (fun other => (coins.lookup other).bind (f other)) id none := by
  funext other
  by_cases same : other = id
  · subst same
    rw [update_self, Finmap.lookup_erase, bind_none]
  · rw [update_of_ne same, Finmap.lookup_erase_ne same]

theorem update_none_self {items : Bytes32 → Option ρ} (absent : items id = none) :
    update items id none = items := by
  rw [← absent, update_eq_self]

theorem Indexed.dropFromIndexes (indexed : Indexed env s live)
    (ran : UTXOHandler.dropFromIndexes s id = .ok s') :
    id ∈ live ∧ Indexed env s' (live.erase id) := by
  have records : ∀ other utxo, (live.erase id).lookup other = some utxo →
      s.utxos other = some utxo := by
    intro other utxo found
    have apart : other ≠ id := by rintro rfl; rw [Finmap.lookup_erase] at found; cases found
    rw [Finmap.lookup_erase_ne apart] at found
    exact indexed.records other utxo found
  unfold UTXOHandler.dropFromIndexes at ran
  split at ran
  · cases ran
  · rename_i ds record
    simp only [ExpSizeIndex.Drop, DataIndex.Drop, ok_iff] at ran
    obtain ⟨expIndex, expDropped, dataIndex, dataDropped, rfl⟩ := ran
    obtain ⟨⟨ref, listed⟩, exp⟩ := indexed.exp.drop expDropped
    obtain ⟨_, data⟩ := indexed.data.drop dataDropped
    obtain ⟨utxo, found, _⟩ := bind_eq_some_iff.mp listed
    have kind : utxo = .dataStore ds := some.inj ((indexed.records id utxo found).symm.trans record)
    subst kind
    refine ⟨Finmap.mem_iff.mpr ⟨_, found⟩, ⟨records, ?_, ?_, ?_⟩⟩
    · rw [lookup_erase_bind live id fun _ => TXOut.expRef env]; exact exp
    · rw [lookup_erase_bind live id fun _ => TXOut.dataKey]; exact data
    · rw [lookup_erase_bind, update_none_self (by rw [found]; rfl)]; exact indexed.value
  · rename_i vs record
    simp only [ValueIndex.Drop, ok_iff] at ran
    obtain ⟨valueIndex, dropped, rfl⟩ := ran
    obtain ⟨⟨ref, listed⟩, value⟩ := indexed.value.drop dropped
    obtain ⟨utxo, found, _⟩ := bind_eq_some_iff.mp listed
    have kind : utxo = .valueStore vs :=
      some.inj ((indexed.records id utxo found).symm.trans record)
    subst kind
    refine ⟨Finmap.mem_iff.mpr ⟨_, found⟩, ⟨records, ?_, ?_, ?_⟩⟩
    · rw [lookup_erase_bind live id fun _ => TXOut.expRef env,
        update_none_self (by rw [found]; rfl)]
      exact indexed.exp
    · rw [lookup_erase_bind live id fun _ => TXOut.dataKey, update_none_self (by rw [found]; rfl)]
      exact indexed.data
    · rw [lookup_erase_bind]; exact value

private theorem lookup_bind_eq_none {f : TXOut → Option ρ} (absent : id ∉ live) :
    (live.lookup id).bind f = none := by
  rw [Finmap.lookup_eq_none.mpr absent, bind_none]

variable {utxo : TXOut} {utxos : List TXOut}

theorem addToIndexes_frame (ran : UTXOHandler.addToIndexes env s id utxo = .ok s') :
    s'.trie = s.trie ∧ s'.utxos = s.utxos := by
  cases utxo <;> simp only [UTXOHandler.addToIndexes, ok_iff] at ran
  · obtain ⟨_, _, _, _, _, _, rfl⟩ := ran
    exact ⟨rfl, rfl⟩
  · obtain ⟨_, _, rfl⟩ := ran
    exact ⟨rfl, rfl⟩

private theorem addOne_frame (ran : UTXOHandler.addOne env s utxo = .ok s') :
    s.trie.contains (utxo.utxoID env) = .ok false ∧ s'.trie = s.trie := by
  simp only [UTXOHandler.addOne, ok_iff] at ran
  obtain ⟨_, known, _, rfl, _, entered, _, _, rfl⟩ := ran
  exact ⟨known, (addToIndexes_frame entered).1⟩

theorem Indexed.addToIndexes (indexed : Indexed env s live) (absent : id ∉ live)
    (ran : UTXOHandler.addToIndexes env s id utxo = .ok s') :
    Indexed env { s' with utxos := update s'.utxos id (some utxo.stored) }
      (live.insert id utxo.stored) := by
  have records : ∀ other found, (live.insert id utxo.stored).lookup other = some found →
      update s.utxos id (some utxo.stored) other = some found := by
    intro other found listed
    by_cases same : other = id
    · subst same
      rw [Finmap.lookup_insert] at listed
      rw [update_self, listed]
    · rw [Finmap.lookup_insert_of_ne _ same] at listed
      rw [update_of_ne same]
      exact indexed.records other found listed
  cases utxo with
  | dataStore ds =>
    simp only [UTXOHandler.addToIndexes, TXOut.marshalBinary, DataIndex.Add, ok_iff] at ran
    obtain ⟨epoch, expires, size, ⟨_, _, rfl⟩, dataIndex, added, rfl⟩ := ran
    split at added
    · cases added
    · rename_i vacant
      cases added
      have unused := indexed.data.table_eq_none_iff.mp vacant
      refine ⟨records, ?_, ?_, ?_⟩
      · rw [lookup_insert_bind live id _ fun _ => TXOut.expRef env,
          show TXOut.expRef env (TXOut.dataStore ds).stored =
            some (epoch, MaxUint32 - env.objSize (.dataStore ds) % 2 ^ 32) by simp [TXOut.stored,
              TXOut.expRef, expires]]
        refine indexed.exp.put (lookup_bind_eq_none absent) fun other ref listed same => ?_
        rw [show other = id from congrArg (fun key => key.2.2) same,
          lookup_bind_eq_none absent] at listed
        cases listed
      · rw [lookup_insert_bind live id _ fun _ => TXOut.dataKey]
        exact indexed.data.put (lookup_bind_eq_none absent) unused
      · rw [lookup_insert_bind]
        simp only [TXOut.stored, TXOut.valueRef]
        rw [update_none_self (lookup_bind_eq_none absent)]
        exact indexed.value
  | valueStore vs =>
    simp only [UTXOHandler.addToIndexes, ValueStore.value, ok_iff] at ran
    obtain ⟨value, ⟨_, _, rfl⟩, rfl⟩ := ran
    refine ⟨records, ?_, ?_, ?_⟩
    · rw [lookup_insert_bind live id _ fun _ => TXOut.expRef env]
      simp only [TXOut.stored, TXOut.expRef]
      rw [update_none_self (lookup_bind_eq_none absent)]
      exact indexed.exp
    · rw [lookup_insert_bind live id _ fun _ => TXOut.dataKey]
      simp only [TXOut.stored, TXOut.dataKey]
      rw [update_none_self (lookup_bind_eq_none absent)]
      exact indexed.data
    · rw [lookup_insert_bind]
      refine indexed.value.put (lookup_bind_eq_none absent) fun other ref listed same => ?_
      obtain ⟨found, present, isValue⟩ := bind_eq_some_iff.mp listed
      cases found with
      | dataStore ds => cases isValue
      | valueStore held =>
        cases isValue
        rw [show other = id from congrArg (fun key => key.2.2) same,
          Finmap.lookup_eq_none.mpr absent] at present
        cases present

theorem Indexed.addOne (indexed : Indexed env s live) (absent : utxo.utxoID env ∉ live)
    (ran : UTXOHandler.addOne env s utxo = .ok s') :
    Indexed env s' (live.insert (utxo.utxoID env) utxo.stored) := by
  simp only [UTXOHandler.addOne, ok_iff] at ran
  obtain ⟨_, _, _, rfl, _, entered, _, _, rfl⟩ := ran
  exact indexed.addToIndexes absent entered

theorem Indexed.dropAll (indexed : Indexed env s live)
    (ran : ids.foldlM UTXOHandler.dropFromIndexes s = .ok s') :
    (∀ id ∈ ids, id ∈ live) ∧ Indexed env s' (live.spend ids) := by
  induction ids generalizing s live with
  | nil =>
    rw [foldlM_nil, pure_ok_iff] at ran
    subst ran
    exact ⟨by simp, indexed⟩
  | cons id rest ih =>
    rw [foldlM_cons, bind_ok_iff] at ran
    obtain ⟨middle, first, others⟩ := ran
    obtain ⟨mem, dropped⟩ := indexed.dropFromIndexes first
    obtain ⟨members, indexed'⟩ := ih dropped others
    refine ⟨?_, indexed'⟩
    rintro other listed
    rcases mem_cons.mp listed with rfl | listed
    · exact mem
    · exact (Finmap.mem_erase.mp (members other listed)).2

theorem addAll_frame (ran : utxos.foldlM (UTXOHandler.addOne env) s = .ok s') :
    (∀ utxo ∈ utxos, s.trie.contains (utxo.utxoID env) = .ok false) ∧ s'.trie = s.trie := by
  induction utxos generalizing s with
  | nil =>
    rw [foldlM_nil, pure_ok_iff] at ran
    subst ran
    exact ⟨by simp, rfl⟩
  | cons utxo rest ih =>
    rw [foldlM_cons, bind_ok_iff] at ran
    obtain ⟨middle, first, others⟩ := ran
    obtain ⟨vacant, trie⟩ := addOne_frame first
    obtain ⟨vacants, trie'⟩ := ih others
    rw [trie] at vacants trie'
    exact ⟨forall_mem_cons.mpr ⟨vacant, vacants⟩, trie'⟩

theorem dropFromIndexes_frame (ran : UTXOHandler.dropFromIndexes s id = .ok s') :
    s'.utxos = s.utxos ∧ s'.trie = s.trie := by
  unfold UTXOHandler.dropFromIndexes at ran
  split at ran
  · cases ran
  all_goals
    simp only [ok_iff] at ran
  · obtain ⟨_, _, _, _, rfl⟩ := ran
    exact ⟨rfl, rfl⟩
  · obtain ⟨_, _, rfl⟩ := ran
    exact ⟨rfl, rfl⟩

theorem dropAll_frame {ids : List Bytes32}
    (ran : ids.foldlM UTXOHandler.dropFromIndexes s = .ok s') :
    s'.utxos = s.utxos ∧ s'.trie = s.trie := by
  induction ids generalizing s with
  | nil =>
    rw [foldlM_nil, pure_ok_iff] at ran
    rw [ran]
    exact ⟨rfl, rfl⟩
  | cons id rest ih =>
    rw [foldlM_cons, bind_ok_iff] at ran
    obtain ⟨middle, first, others⟩ := ran
    rw [(ih others).1, (ih others).2]
    exact dropFromIndexes_frame first

private theorem addOne_utxos (ran : UTXOHandler.addOne env s utxo = .ok s') :
    s'.utxos = update s.utxos (utxo.utxoID env) (some utxo.stored) := by
  simp only [UTXOHandler.addOne, ok_iff] at ran
  obtain ⟨_, _, _, _, middle, entered, _, _, rfl⟩ := ran
  rw [(addToIndexes_frame entered).2]

theorem addAll_utxos (ran : utxos.foldlM (UTXOHandler.addOne env) s = .ok s') :
    s'.utxos id ≠ none ↔ s.utxos id ≠ none ∨ id ∈ utxos.map (TXOut.utxoID env) := by
  induction utxos generalizing s with
  | nil =>
    rw [foldlM_nil, pure_ok_iff] at ran
    simp [ran]
  | cons utxo rest ih =>
    rw [foldlM_cons, bind_ok_iff] at ran
    obtain ⟨middle, first, others⟩ := ran
    rw [ih others, addOne_utxos first, map_cons, mem_cons]
    by_cases same : id = utxo.utxoID env
    · simp [same]
    · simp [same]

theorem Indexed.addAll (indexed : Indexed env s live)
    (fresh : ∀ utxo ∈ utxos, utxo.utxoID env ∉ live)
    (distinct : (utxos.map (TXOut.utxoID env)).Nodup)
    (ran : utxos.foldlM (UTXOHandler.addOne env) s = .ok s') :
    Indexed env s' (live.create (utxos.map fun utxo => (utxo.utxoID env, utxo.stored))) := by
  induction utxos generalizing s live with
  | nil =>
    rw [foldlM_nil, pure_ok_iff] at ran
    subst ran
    exact indexed
  | cons utxo rest ih =>
    rw [foldlM_cons, bind_ok_iff] at ran
    obtain ⟨middle, first, others⟩ := ran
    rw [map_cons, nodup_cons] at distinct
    refine ih (indexed.addOne (fresh utxo mem_cons_self) first) (fun other listed =>
      ?_) distinct.2 others
    rw [Finmap.mem_insert, not_or]
    refine ⟨fun same => distinct.1 ?_, fresh other (mem_cons_of_mem _ listed)⟩
    rw [show utxo.utxoID env = other.utxoID env from same.symm]
    exact mem_map_of_mem listed

end AliceNet.Application
