import AliceNet.Application.Ledger

/-! Runs of the handler of unspent outputs, in step with the ledger while batches are separated. -/

namespace AliceNet.Application

open BadgerTrie (KV SMT DefaultLeaf Separated Sorted applyKVs applyKVs_of_mem applyKVs_of_not_mem
  Backed Holds Update_log TrieHeight ref)
open Consensus (Fault)
open Outcome
open List

variable {env : Environment} {hashed : Set Bytes} {ut ut' : UTXOTrie} {txs : List Tx} {id : Bytes32}

theorem TXIn.utxoID_ok {b : TXIn} (ran : b.utxoID env = .ok id) : id = b.name env := by
  simp only [TXIn.utxoID, ok_iff] at ran
  exact ran.choose_spec.2.symm

theorem TXIn.preHash_ok {b : TXIn} (ran : b.preHash env = .ok hsh) :
    hsh = env.hash (env.marshalTXInPreImage b.txInPreImage) := by
  simp only [TXIn.preHash, ok_iff] at ran
  exact ran.choose_spec.2.symm

theorem consumedUTXOIDNoDeposits_ok (ran : TxVec.consumedUTXOIDNoDeposits env txs = .ok ids) :
    ids = Block.consumed env txs :=
  mapM_ok_eq_map (fun _ _ => TXIn.utxoID_ok) ran

theorem consumedUTXOIDOnlyDeposits_ok (ran : TxVec.consumedUTXOIDOnlyDeposits env txs = .ok ids) :
    ids = Block.deposits env txs :=
  mapM_ok_eq_map (fun _ _ => TXIn.utxoID_ok) ran

private theorem consumedPreHashOnlyDeposits_ok
    (ran : TxVec.consumedPreHashOnlyDeposits env txs = .ok hashes) :
    hashes = ((TxVec.inputs txs).filter TXIn.isDeposit).map fun b =>
      env.hash (env.marshalTXInPreImage b.txInPreImage) :=
  mapM_ok_eq_map (fun _ _ => TXIn.preHash_ok) ran

theorem batch_ok (ran : UTXOTrie.batch env txs = .ok kvs) :
    sortKVs kvs = Block.changes env txs := by
  simp only [UTXOTrie.batch, TxVec.generatedUTXOID, TxVec.generatedPreHash, ok_iff] at ran
  obtain ⟨consumed, first, _, ⟨_, _, rfl⟩, _, ⟨_, _, rfl⟩, deposits, second, hashes, third, rfl⟩ :=
    ran
  rw [consumedUTXOIDNoDeposits_ok first, consumedUTXOIDOnlyDeposits_ok second,
    consumedPreHashOnlyDeposits_ok third, Block.changes, Block.deposits]
  simp only [zipWith_map, zipWith_self]

private theorem mem_changes_iff :
    kv ∈ Block.changes env txs ↔
      (∃ utxo ∈ TxVec.generatedUTXOs txs, (⟨utxo.utxoID env, utxo.preHash env⟩ : KV) = kv) ∨
      (∃ b ∈ TxVec.inputs txs, b.isDeposit = true ∧
        (⟨b.name env, env.hash (env.marshalTXInPreImage b.txInPreImage)⟩ : KV) = kv) ∨
      ∃ id ∈ Block.consumed env txs, (⟨id, DefaultLeaf env.hash⟩ : KV) = kv := by
  simp only [Block.changes, sortKVs, mem_insertionSort, mem_append, mem_map, mem_filter, and_assoc,
    or_assoc]

theorem keys_changes_perm :
    ((Block.changes env txs).map KV.key).Perm ((TxVec.generatedUTXOs txs).map (TXOut.utxoID env) ++
      Block.deposits env txs ++ Block.consumed env txs) := by
  refine ((perm_insertionSort _ _).map KV.key).trans ?_
  simp only [map_append, map_map, Block.deposits]
  exact Perm.of_eq (by simp [Function.comp_def])

private theorem changes_sorted (distinct : ((Block.changes env txs).map KV.key).Nodup) :
    Sorted (Block.changes env txs) := by
  have ordered : (Block.changes env txs).Pairwise fun a b => a.key ≤ b.key :=
    pairwise_insertionSort _ _
  rw [Nodup, pairwise_map] at distinct
  exact (ordered.and distinct).imp fun ⟨le, ne⟩ => BitVec.lt_of_le_ne le ne

/-- The trie stands for a map. -/
def Mapped (env : Environment) (hashed : Set Bytes) (ut : UTXOTrie)
    (entries : Bytes32 → Option Bytes32) : Prop :=
  ∃ t, Backed env.hash hashed ut.getCurrentTrie t ∧ Holds env.hash t entries

theorem Mapped.empty (zero : [0] ∈ hashed) : Mapped env hashed .empty fun _ => none :=
  ⟨.empty, .new zero, .empty, fun _ => rfl, fun _ => by simp⟩

theorem Mapped.get (mapped : Mapped env hashed ut entries) (inj : Set.InjOn env.hash hashed)
    (id : Bytes32) : ut.getCurrentTrie.Get id = .ok (entries id) := by
  obtain ⟨t, backed, holds⟩ := mapped
  rw [← holds.contents]
  exact backed.get inj id

theorem Mapped.contains (mapped : Mapped env hashed ut entries) (inj : Set.InjOn env.hash hashed)
    (id : Bytes32) : ut.contains id = .ok (entries id).isSome := by
  rw [UTXOTrie.contains, mapped.get inj]
  rfl

private theorem backed_root_ne_zero (backed : Backed env.hash hashed smt t)
    (nonzero : ∀ input ∈ hashed, env.hash input ≠ 0) : smt.root ≠ some 0 := by
  have digest : (BadgerTrie.scheme env.hash).digest TrieHeight t ≠ 0 :=
    nonzero _
      (backed.represents.inputs ((BadgerTrie.scheme env.hash).input_mem_inputs TrieHeight t))
  rw [backed.root]
  cases t with
  | empty => simp [ref]
  | leaf => simpa [ref] using digest
  | node => simpa [ref] using digest

theorem setRoots_ok (ran : ut.setRoots height root = .ok ut') :
    ut'.nodes = ut.nodes ∧ ut'.hashed = ut.hashed ∧ ut'.currentStateRoot = some root := by
  unfold UTXOTrie.setRoots at ran
  split at ran
  · cases ran; exact ⟨rfl, rfl, rfl⟩
  · split at ran
    · dsimp only at ran
      split at ran
      · cases ran
      · cases ran; exact ⟨rfl, rfl, rfl⟩
    · cases ran; exact ⟨rfl, rfl, rfl⟩

theorem updateRoots_ok (ran : ut.updateRoots height current.root current = .ok ut') :
    ut'.nodes = current.Commit.db.db ∧ ut'.hashed = current.db.hashed ∧ ut'.currentStateRoot =
      some current.root := by
  simp only [UTXOTrie.updateRoots, ok_iff] at ran
  obtain ⟨middle, first, rfl⟩ := ran
  exact ⟨rfl, rfl, (setRoots_ok first).2.2⟩

theorem Mapped.commit (backed : Backed env.hash hashed current t) (holds : Holds env.hash t entries)
    (nonzero : ∀ input ∈ hashed, env.hash input ≠ 0)
    (ran : ut.updateRoots height current.root current = .ok ut') :
    Mapped env hashed ut' entries := by
  obtain ⟨nodes, log, root⟩ := updateRoots_ok ran
  have same : ut'.getCurrentTrie = { current.Commit with prevRoot := none } := by
    simp only [UTXOTrie.getCurrentTrie, UTXOTrie.getCurrentStateRoot, root, Option.getD_some,
      if_neg (backed_root_ne_zero backed nonzero), nodes, log]
    rfl
  refine ⟨t, ?_, holds⟩
  rw [same]
  exact ⟨backed.commit.sound, backed.commit.represents, backed.commit.root⟩

structure Checked (env : Environment) (s : State) (txs : List Tx) (height : ℕ)
  (deposits consumed : List TXOut) : Prop where
  indexes : ∃ seen, TxVec.validateDataStoreIndexes env txs [] = .ok seen
  each : ∀ tx ∈ txs, UTXOHandler.isValidTx env s height (TxVec.voutMap env deposits) tx = .ok ()
  unspent : ∀ id ∈ Block.deposits env txs, s.trie.contains id = .ok false
  fresh : ∀ utxo ∈ TxVec.generatedUTXOs txs, s.trie.contains (utxo.utxoID env) = .ok false
  present : ∀ id ∈ Block.consumed env txs, s.trie.contains id = .ok true
  recorded : ∀ id ∈ Block.consumed env txs, s.utxos id ≠ none
  found : consumed = (Block.consumed env txs).filterMap s.utxos

theorem isValid_ok (ran : UTXOHandler.isValid env s txs height deposits = .ok consumed) :
    Checked env s txs height deposits consumed := by
  simp only [UTXOHandler.isValid, TxVec.generatedUTXOID, UTXOHandler.get, ok_iff] at ran
  obtain ⟨seen, indexes, _, each, _, first, _, unspent, _, ⟨_, _, rfl⟩, _, fresh, _, second, _,
    present, _, none, rfl⟩ := ran
  rw [consumedUTXOIDOnlyDeposits_ok first] at unspent
  rw [consumedUTXOIDNoDeposits_ok second] at present none ⊢
  have passed : ∀ {ids : List Bytes32} {expected : Bool} {failure : Fault},
      (ids.forM fun id => do require ((← s.trie.contains id) = expected) failure) = .ok PUnit.unit →
        ∀ id ∈ ids, s.trie.contains id = .ok expected := by
    intro ids expected failure checked id mem
    have step := forM_ok_iff.mp checked id mem
    simp only [ok_iff] at step
    obtain ⟨_, known, rfl⟩ := step
    exact known
  refine ⟨⟨seen, indexes⟩, forM_ok_iff.mp each, passed unspent, fun utxo mem => ?_, passed present,
    ?_, rfl⟩
  · exact passed fresh _ (mem_map_of_mem mem)
  · intro id mem absent
    have listed : id ∈ (Block.consumed env txs).filter fun id => (s.utxos id).isNone :=
      mem_filter.mpr ⟨mem, by rw [absent]; rfl⟩
    rw [require_ok_iff.mp none] at listed
    cases listed

/-- The database and the ledger agree. -/
structure InStep (env : Environment) (hashed : Set Bytes) (s : State) (l : Ledger) : Prop where
  mapped : Mapped env hashed s.trie l.entries
  domain : ∀ id, l.entries id ≠ none ↔ id ∈ l.live ∨ id ∈ l.spent
  apart : ∀ id ∈ l.live, id ∉ l.spent
  indexed : Indexed env s l.live
  recorded : ∀ id, s.utxos id ≠ none ↔ id ∈ l.issued

variable {s s' : State} {l : Ledger}

theorem InStep.entries_eq_none (inStep : InStep env hashed s l) (inj : Set.InjOn env.hash hashed)
    (absent : s.trie.contains id = .ok false) : l.entries id = none := by
  rw [inStep.mapped.contains inj, Except.ok.injEq] at absent
  exact Option.isSome_eq_false_iff.mp absent |> Option.isNone_iff_eq_none.mp

/-- What the trie has accepted about a block. -/
structure Accepted (env : Environment) (l : Ledger) (txs : List Tx) : Prop where
  distinct : ((TxVec.generatedUTXOs txs).map (TXOut.utxoID env) ++ Block.deposits env txs ++
    Block.consumed env txs).Nodup
  created : ∀ utxo ∈ TxVec.generatedUTXOs txs, l.entries (utxo.utxoID env) = none
  unspent : ∀ id ∈ Block.deposits env txs, l.entries id = none
  live : ∀ id ∈ Block.consumed env txs, id ∈ l.live
  genuine : ∀ kv ∈ Block.changes env txs, kv.value = DefaultLeaf env.hash → l.entries kv.key ≠ none

theorem Accepted.applyKVs_eq (accepted : Accepted env l txs)
    (sorted : Sorted (Block.changes env txs)) (id : Bytes32) :
    applyKVs env.hash (Block.changes env txs) l.entries id ≠ none ↔
      id ∈ (TxVec.generatedUTXOs txs).map (TXOut.utxoID env) ∨ id ∈ Block.deposits env txs ∨
        id ∉ Block.consumed env txs ∧ l.entries id ≠ none := by
  have apart := accepted.distinct
  rw [append_assoc, nodup_append, nodup_append] at apart
  by_cases changed : ∃ kv ∈ Block.changes env txs, kv.key = id
  · obtain ⟨kv, mem, rfl⟩ := changed
    rw [applyKVs_of_mem sorted mem]
    rcases mem_changes_iff.mp mem with
      ⟨utxo, listed, rfl⟩ | ⟨b, listed, isDeposit, rfl⟩ | ⟨id, listed, rfl⟩
    · have kept : ¬ utxo.preHash env = DefaultLeaf env.hash := fun deleted =>
        accepted.genuine _ mem deleted (accepted.created utxo listed)
      rw [if_neg kept]
      exact iff_of_true (by simp) (.inl (mem_map_of_mem listed))
    · have named : b.name env ∈ Block.deposits env txs :=
        mem_map_of_mem (mem_filter.mpr ⟨listed, isDeposit⟩)
      have kept : ¬ env.hash (env.marshalTXInPreImage b.txInPreImage) = DefaultLeaf env.hash :=
          fun deleted =>
        accepted.genuine _ mem deleted (accepted.unspent _ named)
      rw [if_neg kept]
      exact iff_of_true (by simp) (.inr (.inl named))
    · rw [if_pos rfl]
      refine iff_of_false (by simp) ?_
      rintro (created | spent | ⟨kept, _⟩)
      · exact apart.2.2 id created id (mem_append_right _ listed) rfl
      · exact apart.2.1.2.2 id spent id listed rfl
      · exact kept listed
  · rw [applyKVs_of_not_mem fun kv mem same => changed ⟨kv, mem, same⟩]
    constructor
    · refine fun present => .inr (.inr ⟨fun listed => changed ?_, present⟩)
      exact ⟨_, mem_changes_iff.mpr (.inr (.inr ⟨id, listed, rfl⟩)), rfl⟩
    · rintro (created | spent | ⟨_, present⟩)
      · obtain ⟨utxo, listed, rfl⟩ := mem_map.mp created
        exact absurd ⟨_, mem_changes_iff.mpr (.inl ⟨utxo, listed, rfl⟩), rfl⟩ changed
      · obtain ⟨b, listed, rfl⟩ := mem_map.mp spent
        obtain ⟨listed, isDeposit⟩ := mem_filter.mp listed
        exact absurd ⟨_, mem_changes_iff.mpr (.inr (.inl ⟨b, listed, isDeposit, rfl⟩)), rfl⟩ changed
      · exact present

theorem map_fst_created :
    (Block.created env txs).map Prod.fst = (TxVec.generatedUTXOs txs).map (TXOut.utxoID env) := by
  rw [Block.created, map_map]
  rfl

theorem mem_apply_live :
    id ∈ (l.apply env txs).live ↔ id ∈ l.live ∧ id ∉ Block.consumed env txs ∨
      id ∈ (TxVec.generatedUTXOs txs).map (TXOut.utxoID env) := by
  rw [Ledger.apply, CoinSet.mem_create, CoinSet.mem_spend, map_fst_created]

theorem mem_apply_spent :
    id ∈ (l.apply env txs).spent ↔ id ∈ l.spent ∨ id ∈ Block.deposits env txs := by
  rw [Ledger.apply, Finset.mem_union, mem_toFinset]

theorem Accepted.domain (accepted : Accepted env l txs) (sorted : Sorted (Block.changes env txs))
    (inStep : InStep env hashed s l) (id : Bytes32) :
    (l.apply env txs).entries id ≠ none ↔ id ∈ (l.apply env txs).live ∨
      id ∈ (l.apply env txs).spent := by
  rw [mem_apply_live, mem_apply_spent]
  refine (accepted.applyKVs_eq sorted id).trans ?_
  rw [inStep.domain]
  have kept : id ∈ l.spent → id ∉ Block.consumed env txs := fun spent listed =>
    inStep.apart id (accepted.live id listed) spent
  tauto

theorem Accepted.apart (accepted : Accepted env l txs) (inStep : InStep env hashed s l) :
    ∀ id ∈ (l.apply env txs).live, id ∉ (l.apply env txs).spent := by
  intro id live spent
  have distinct := accepted.distinct
  rw [append_assoc, nodup_append] at distinct
  rw [mem_apply_live] at live
  rw [mem_apply_spent] at spent
  rcases live with ⟨live, _⟩ | created <;> rcases spent with spent | spent
  · exact inStep.apart id live spent
  · exact (inStep.domain id).mpr (.inl live) (accepted.unspent id spent)
  · obtain ⟨utxo, listed, rfl⟩ := mem_map.mp created
    exact (inStep.domain _).mpr (.inr spent) (accepted.created utxo listed)
  · exact distinct.2.2 id created id (mem_append_left _ spent) rfl

theorem applyState_nonempty (nonempty : txs ≠ [])
    (ran : UTXOHandler.applyState env s txs height = .ok (root, s')) :
    ∃ dropped added current, (Block.consumed env txs).foldlM UTXOHandler.dropFromIndexes s =
      .ok dropped ∧
      (TxVec.generatedUTXOs txs).foldlM (UTXOHandler.addOne env) dropped = .ok added ∧
      added.trie.getCurrentTrie.Update env.hash (Block.changes env txs) = .ok current ∧
        root = current.root ∧
      added.trie.updateRoots height current.root current = .ok s'.trie ∧ s' = { added with
        trie := s'.trie } := by
  rw [UTXOHandler.applyState, if_neg nonempty] at ran
  simp only [ok_iff'] at ran
  obtain ⟨ids, first, dropped, drops, added, adds, root, trie, applied, rfl, rfl⟩ := ran
  rw [consumedUTXOIDNoDeposits_ok first] at drops
  rw [UTXOTrie.applyState, if_neg nonempty] at applied
  simp only [UTXOTrie.add, ok_iff'] at applied
  obtain ⟨current, ⟨kvs, batch, updated⟩, trie, roots, rfl, rfl⟩ := applied
  rw [batch_ok batch] at updated
  exact ⟨dropped, added, current, drops, adds, updated, rfl, roots, rfl⟩

theorem InStep.accepted (inStep : InStep env hashed s l) (inj : Set.InjOn env.hash hashed)
    (checked : Checked env s txs height deposits consumed) (nonempty : txs ≠ [])
    (ran : UTXOHandler.applyState env s txs height = .ok (root, s')) :
    Accepted env l txs ∧ Indexed env s' (l.apply env txs).live ∧
      (∀ id, s'.utxos id ≠ none ↔ id ∈ (l.apply env txs).issued) ∧
      ∃ current, s.trie.getCurrentTrie.Update env.hash (Block.changes env txs) = .ok current ∧
        root = current.root ∧
        s.trie.updateRoots height current.root current = .ok s'.trie := by
  obtain ⟨dropped, added, current, drops, adds, updated, rfl, roots, shape⟩ :=
    applyState_nonempty nonempty ran
  obtain ⟨live, indexed⟩ := inStep.indexed.dropAll drops
  obtain ⟨sameRecords, sameTrie⟩ := dropAll_frame drops
  obtain ⟨vacant, sameTrie'⟩ := addAll_frame adds
  rw [sameTrie', sameTrie] at updated roots
  rw [sameTrie] at vacant
  obtain ⟨keys, checks⟩ := BadgerTrie.Update_checked updated
  have distinct := keys_changes_perm.nodup_iff.mp keys
  have created := fun utxo listed => inStep.entries_eq_none inj (vacant utxo listed)
  refine ⟨⟨distinct, created, fun id listed =>
    inStep.entries_eq_none inj (checked.unspent id listed), live, ?_⟩,
    ?_, ?_, current, updated, rfl, roots⟩
  · intro kv mem deleted
    obtain ⟨found, got, kept⟩ := checks kv mem
    rw [inStep.mapped.get inj, Except.ok.injEq] at got
    rw [if_pos deleted] at kept
    rwa [got]
  · have indexed' : Indexed env added (l.apply env txs).live := by
      refine indexed.addAll (fun utxo listed mem => ?_) ?_ adds
      · rw [CoinSet.mem_spend] at mem
        exact (inStep.domain _).mpr (.inl mem.1) (created utxo listed)
      · rw [append_assoc, nodup_append] at distinct
        exact distinct.1
    rw [shape]
    exact indexed'.congr rfl rfl rfl rfl
  · intro id
    rw [show s'.utxos = added.utxos by rw [shape], addAll_utxos adds, sameRecords, inStep.recorded,
      Ledger.apply, Finset.mem_union, mem_toFinset, map_fst_created]

theorem apply_nil (l : Ledger) : l.apply env [] = l := by
  have unchanged : applyKVs env.hash (Block.changes env []) l.entries = l.entries := by
    funext key
    exact applyKVs_of_not_mem (by simp [Block.changes, sortKVs, TxVec.inputs, TxVec.generatedUTXOs,
      Block.consumed]) _
  simp only [Ledger.apply, unchanged, Block.deposits, Block.created, TxVec.inputs,
    TxVec.generatedUTXOs, flatMap_nil, filter_nil, map_nil, toFinset_nil, Finset.union_empty]
  rfl

private theorem getCurrentTrie_congr (nodes : ut'.nodes = ut.nodes) (log : ut'.hashed = ut.hashed)
    (root : ut'.getCurrentStateRoot = ut.getCurrentStateRoot) :
    ut'.getCurrentTrie = ut.getCurrentTrie := by
  simp only [UTXOTrie.getCurrentTrie, nodes, log, root]

theorem applyState_nil (ran : UTXOHandler.applyState env s [] height = .ok (root, s')) :
    root = s.trie.getCurrentStateRoot ∧ s'.trie.hashed = s.trie.hashed ∧
      s'.trie.getCurrentTrie = s.trie.getCurrentTrie ∧ s' = { s with trie := s'.trie } := by
  simp only [UTXOHandler.applyState, UTXOTrie.applyState, if_true, UTXOTrie.updateRoots,
    ok_iff'] at ran
  obtain ⟨_, trie, ⟨_, ⟨middle, roots, rfl⟩, rfl, rfl⟩, rfl, rfl⟩ := ran
  have current := (setRoots_ok roots).2.2
  refine ⟨rfl, rfl, getCurrentTrie_congr rfl rfl ?_, rfl⟩
  simp only [UTXOTrie.getCurrentStateRoot, current, Option.getD_some]

theorem InStep.apply (inStep : InStep env hashed s l) (inj : Set.InjOn env.hash hashed)
    (zero : [0] ∈ hashed) (nonzero : ∀ input ∈ hashed, env.hash input ≠ 0)
    (log : ∀ input ∈ s'.trie.hashed, input ∈ hashed)
    (checked : Checked env s txs height deposits consumed)
    (separated : Separated env.hash l.entries (Block.changes env txs))
    (ran : UTXOHandler.applyState env s txs height = .ok (root, s')) :
    InStep env hashed s' (l.apply env txs) := by
  by_cases nonempty : txs = []
  · subst nonempty
    obtain ⟨_, _, same, shape⟩ := applyState_nil ran
    obtain ⟨t, backed, holds⟩ := inStep.mapped
    rw [apply_nil]
    refine ⟨⟨t, by rwa [same], holds⟩, inStep.domain, inStep.apart, ?_, ?_⟩
    · rw [shape]
      exact inStep.indexed.congr rfl rfl rfl rfl
    · rw [shape]
      exact inStep.recorded
  · obtain ⟨accepted, indexed, recorded, current, updated, rfl, roots⟩ :=
      inStep.accepted inj checked nonempty ran
    have sorted := changes_sorted (BadgerTrie.Update_checked updated).1
    obtain ⟨t, backed, holds⟩ := inStep.mapped
    rw [(updateRoots_ok roots).2.1] at log
    obtain ⟨t', backed', refines⟩ := backed.update inj zero updated log
    exact ⟨.commit backed' (refines l.entries holds sorted separated) nonzero roots,
      accepted.domain sorted inStep, accepted.apart inStep, indexed, recorded⟩

theorem applyState_log (ran : UTXOHandler.applyState env s txs height = .ok (root, s')) :
    s.trie.hashed ⊆ s'.trie.hashed := by
  by_cases nonempty : txs = []
  · subst nonempty
    rw [(applyState_nil ran).2.1]
    exact Subset.refl _
  · obtain ⟨dropped, added, current, drops, adds, updated, _, roots, _⟩ :=
      applyState_nonempty nonempty ran
    rw [(updateRoots_ok roots).2.1, ← (dropAll_frame drops).2, ← (addAll_frame adds).2]
    exact Update_log updated

inductive UTXOHandler.Run (env : Environment) : State → Ledger → Prop
  | empty : Run env .empty .empty
  | apply {s s' : State} {l : Ledger} {txs : List Tx} (run : Run env s l)
      (valid : UTXOHandler.isValid env s txs height deposits = .ok consumed)
      (separated : Separated env.hash l.entries (Block.changes env txs))
      (ran : UTXOHandler.applyState env s txs height = .ok (root, s')) :
        Run env s' (l.apply env txs)

theorem InStep.empty (zero : [0] ∈ hashed) : InStep env hashed .empty .empty where
  mapped := .empty zero
  domain := fun _ => ⟨fun mapped => (mapped rfl).elim, fun listed => by
    rcases listed with live | spent
    · exact (Finmap.notMem_empty live).elim
    · exact (Finset.notMem_empty _ spent).elim⟩
  apart := fun _ mem => (Finmap.notMem_empty mem).elim
  indexed := .empty
  recorded := by simp [Ledger.empty, State.empty]

theorem UTXOHandler.Run.inStep (run : UTXOHandler.Run env s l) (inj : Set.InjOn env.hash hashed)
    (nonzero : ∀ input ∈ hashed, env.hash input ≠ 0)
    (log : ∀ input ∈ s.trie.hashed, input ∈ hashed) : InStep env hashed s l ∧ [0] ∈ hashed := by
  induction run with
  | empty =>
    have zero := log [0] (mem_singleton.mpr rfl)
    exact ⟨.empty zero, zero⟩
  | apply run valid separated ran ih =>
    obtain ⟨inStep, zero⟩ := ih fun input mem => log input (applyState_log ran mem)
    exact ⟨inStep.apply inj zero nonzero log (isValid_ok valid) separated ran, zero⟩

theorem DataStore.epochOfExpiration_ok (ds : DataStore) :
    ∃ epoch, ds.dsPreImage.epochOfExpiration = .ok epoch := by
  have valid := ds.valid
  simp only [DSPreImage.validateDeposit, ok_iff] at valid
  obtain ⟨_, deposit, _, _, _, _, _, size, _, _, numEpochs, counted, _⟩ := valid
  have data : ds.dsPreImage.rawData ≠ [] := fun nil => size (by rw [DSPreImage.dataSize, nil]; rfl)
  refine ⟨(ds.dsPreImage.issuedAt + numEpochs + 1) % 2 ^ 32, ?_⟩
  simp only [DSPreImage.epochOfExpiration, ok_iff]
  exact ⟨(), deposit, (), data, numEpochs, counted, rfl⟩

/-- Along a run the trie has the live outputs and the spent deposits; the value index, the data
index and the index of expirations have the live outputs of their kinds, and no two live data stores
share owner and index. Records are kept for all outputs there ever were. -/
theorem UTXOHandler.Run.indexes_exact (run : UTXOHandler.Run env s l)
    (inj : Set.InjOn env.hash { input | input ∈ s.trie.hashed })
    (nonzero : ∀ input ∈ s.trie.hashed, env.hash input ≠ 0) :
    (∀ id, s.trie.contains id = .ok (decide (id ∈ l.live ∨ id ∈ l.spent))) ∧
      (∀ id ∈ l.live, id ∉ l.spent) ∧
      (∀ id, s.utxos id ≠ none ↔ id ∈ l.issued) ∧ Indexed env s l.live ∧
      (∀ id ds, l.live.lookup id = some (.dataStore ds) → TXOut.expRef env (.dataStore ds) ≠ none) ∧
      ∀ id id' ds ds', l.live.lookup id = some (.dataStore ds) →
        l.live.lookup id' = some (.dataStore ds') →
        ds.dsPreImage.owner = ds'.dsPreImage.owner → ds.dsPreImage.index = ds'.dsPreImage.index →
          id = id' := by
  obtain ⟨inStep, _⟩ := run.inStep inj nonzero fun _ mem => mem
  refine ⟨fun id => ?_, inStep.apart, inStep.recorded, inStep.indexed, fun id ds _ => ?_, ?_⟩
  · rw [inStep.mapped.contains inj, Except.ok.injEq, Bool.eq_iff_iff, decide_eq_true_iff,
      ← inStep.domain id,
      Option.isSome_iff_ne_none]
  · obtain ⟨epoch, expires⟩ := ds.epochOfExpiration_ok
    simp [TXOut.expRef, expires]
  · intro id id' ds ds' found found' owner index
    refine inStep.indexed.data.apart id (ds.dsPreImage.owner, ds.dsPreImage.index) id'
      (ds'.dsPreImage.owner, ds'.dsPreImage.index) ?_ ?_ ?_
    · rw [found]; rfl
    · rw [found']; rfl
    · rw [DataIndex.key, DataIndex.key, owner, index]

def sampleEnvironment : Environment where
  hash := BadgerTrie.sampleHash
  marshalDSPreImage b := 1 :: b.index.toBytes ++ b.rawData
  marshalVSPreImage b := [2, UInt8.ofNat b.value, UInt8.ofNat b.txOutIdx]
  marshalTXInPreImage b := 3 :: UInt8.ofNat b.consumedTxIdx :: b.consumedTxHash.toBytes
  objSize _ := 100
  validate _ _ _ := .ok []
  getAccount _ := 0
  getDataStoreEpochFee := .ok 0
  getValueStoreFee := .ok 0
  getMinTxFee := .ok 0

def sampleOwner : Owner := ⟨.secp256k1, 5⟩

def samplePayment (txHash : Bytes32) (idx value : ℕ) : TXOut :=
  .valueStore ⟨⟨1, value, idx, sampleOwner, 0⟩, txHash, none, none⟩

def sampleTransfer (txHash consumed : Bytes32) (idx value : ℕ) : Tx where
  vin := [⟨⟨1, idx, consumed⟩, txHash, []⟩]
  vout := [samplePayment txHash 0 value]
  fee := 0
  txHash := none
  vin_length := by simp [MaxTxVectorLength]
  vout_length := by simp [MaxTxVectorLength]

def sampleDeposit : TXOut := samplePayment 9 MaxUint32 10

def sampleBlocks : Except Fault State := do
  let _ ← UTXOHandler.isValid sampleEnvironment .empty [sampleTransfer 101 9 MaxUint32 10] 2
    [sampleDeposit]
  let (_, s) ← UTXOHandler.applyState sampleEnvironment .empty [sampleTransfer 101 9 MaxUint32 10] 2
  let _ ← UTXOHandler.isValid sampleEnvironment s [sampleTransfer 102 101 0 10] 3 []
  let (_, s) ← UTXOHandler.applyState sampleEnvironment s [sampleTransfer 102 101 0 10] 3
  pure s

theorem separated_of_first
    (first : ∀ kv ∈ kvs, kv.value = DefaultLeaf env.hash → ∀ other ∈ kvs, ¬ other.key < kv.key) :
    Separated env.hash entries kvs := by
  intro kv mem deleted other listed below
  exact absurd below (first kv mem deleted other listed)

theorem sampleBlocks_run (ran : sampleBlocks = .ok s) :
    ∃ l, UTXOHandler.Run sampleEnvironment s l := by
  simp only [sampleBlocks, ok_iff'] at ran
  obtain ⟨_, valid, root, s, first, _, valid', root', s', second, rfl⟩ := ran
  have run := UTXOHandler.Run.empty.apply valid (separated_of_first (by decide +kernel)) first
  exact ⟨_, run.apply valid' (separated_of_first (by decide +kernel)) second⟩

theorem sampleBlocks_ok : (do
    let s ← sampleBlocks
    pure (decide ((∀ a ∈ s.trie.hashed, ∀ b ∈ s.trie.hashed, sampleEnvironment.hash a =
      sampleEnvironment.hash b → a = b) ∧
      (∀ input ∈ s.trie.hashed, sampleEnvironment.hash input ≠ 0) ∧
      (s.utxos (makeUTXOID sampleEnvironment 101 0)).isSome = true ∧
      (s.trie.contains (makeUTXOID sampleEnvironment 101 0)).toOption = some false)) :
        Except Fault Bool) = .ok true := by
  decide +kernel

theorem UTXOHandler.Run.indexes_exact_sample :
    ∃ s l, UTXOHandler.Run sampleEnvironment s l ∧ sampleBlocks = .ok s ∧
    Indexed sampleEnvironment s l.live := by
  obtain ⟨s, ran, checked⟩ := bind_ok_iff.mp sampleBlocks_ok
  obtain ⟨l, run⟩ := sampleBlocks_run ran
  obtain ⟨inj, nonzero, _⟩ := of_decide_eq_true (pure_ok_iff.mp checked)
  exact ⟨s, l, run, ran,
    (run.indexes_exact (fun a first b second same => inj a first b second same) nonzero).2.2.2.1⟩

/-- The output of the first transaction has been consumed; its record is still there. -/
theorem record_outlives_output : ∃ s l, UTXOHandler.Run sampleEnvironment s l ∧
    s.utxos (makeUTXOID sampleEnvironment 101 0) ≠ none ∧
    s.trie.contains (makeUTXOID sampleEnvironment 101 0) = .ok false := by
  obtain ⟨s, ran, checked⟩ := bind_ok_iff.mp sampleBlocks_ok
  obtain ⟨l, run⟩ := sampleBlocks_run ran
  obtain ⟨_, _, record, gone⟩ := of_decide_eq_true (pure_ok_iff.mp checked)
  refine ⟨s, l, run, Option.isSome_iff_ne_none.mp record, ?_⟩
  cases found : s.trie.contains (makeUTXOID sampleEnvironment 101 0) with
  | error => rw [found] at gone; cases gone
  | ok present => rw [found] at gone; exact congrArg Except.ok (Option.some.inj gone)

def Block.names (env : Environment) (txs : List Tx) : List Bytes32 :=
    (TxVec.generatedUTXOs txs).map (TXOut.utxoID env)

/-- A run with the transactions of its blocks -/
inductive UTXOHandler.Chain (env : Environment) : State → Ledger → List Tx → Prop
  | empty : Chain env .empty .empty []
  | apply {s s' : State} {l : Ledger} {history txs : List Tx} (chain : Chain env s l history)
      (valid : UTXOHandler.isValid env s txs height deposits = .ok consumed)
      (separated : Separated env.hash l.entries (Block.changes env txs))
      (ran : UTXOHandler.applyState env s txs height = .ok (root, s')) :
        Chain env s' (l.apply env txs) (history ++ txs)

/-- How often ids were created and consumed -/
structure Balanced (env : Environment) (l : Ledger) (history : List Tx) : Prop where
  outputs : ∀ id, (Block.names env history).count id =
    (Block.consumed env history).count id + if id ∈ l.live then 1 else 0
  deposits : ∀ id, (Block.deposits env history).count id = if id ∈ l.spent then 1 else 0

theorem Balanced.apply (balanced : Balanced env l history) (accepted : Accepted env l txs)
    (inStep : InStep env hashed s l) : Balanced env (l.apply env txs) (history ++ txs) := by
  have distinct := accepted.distinct
  rw [append_assoc, nodup_append, nodup_append] at distinct
  obtain ⟨created, ⟨deposits, consumed, _⟩, apart⟩ := distinct
  refine ⟨fun id => ?_, fun id => ?_⟩
  · have fresh : id ∈ Block.names env txs → id ∉ l.live ∧ id ∉ Block.consumed env txs := by
      refine fun made =>
        ⟨fun held => ?_, fun listed => apart id made id (mem_append_right _ listed) rfl⟩
      obtain ⟨utxo, listed, rfl⟩ := mem_map.mp made
      exact (inStep.domain _).mpr (.inl held) (accepted.created utxo listed)
    have before := balanced.outputs id
    have live := accepted.live id
    simp only [Block.names, Block.consumed, TxVec.inputs, TxVec.generatedUTXOs, flatMap_append,
      filter_append, map_append, count_append, mem_apply_live] at *
    grind [Nodup.count]
  · have unspent : id ∈ Block.deposits env txs → id ∉ l.spent := fun listed spent =>
      (inStep.domain id).mpr (.inr spent) (accepted.unspent id listed)
    have before := balanced.deposits id
    simp only [Block.deposits, TxVec.inputs, flatMap_append, filter_append, map_append,
      count_append, mem_apply_spent] at *
    grind [Nodup.count]

/-- Along a chain an id is consumed as often as created, or once less if its output is live, and no
deposit twice. -/
theorem UTXOHandler.Chain.no_double_spend (chain : Chain env s l history)
    (inj : Set.InjOn env.hash hashed) (nonzero : ∀ input ∈ hashed, env.hash input ≠ 0)
    (log : ∀ input ∈ s.trie.hashed, input ∈ hashed) :
    InStep env hashed s l ∧ Balanced env l history := by
  suffices reached : Run env s l ∧ _ from ⟨(reached.1.inStep inj nonzero log).1, reached.2⟩
  induction chain with
  | empty => exact ⟨.empty, fun _ => rfl, fun _ => rfl⟩
  | @apply _ _ _ _ s _ l _ txs _ valid separated ran ih =>
    have earlier := fun input mem => log input (applyState_log ran mem)
    obtain ⟨run, balanced⟩ := ih earlier
    refine ⟨run.apply valid separated ran, ?_⟩
    by_cases nonempty : txs = []
    · rwa [nonempty, apply_nil, append_nil]
    · have inStep := (run.inStep inj nonzero earlier).1
      exact balanced.apply (inStep.accepted inj (isValid_ok valid) nonempty ran).1 inStep

theorem UTXOHandler.Chain.no_double_spend_sample :
    ∃ s l history, Chain sampleEnvironment s l history ∧ Balanced sampleEnvironment l history := by
  obtain ⟨_, ran, checked⟩ := bind_ok_iff.mp sampleBlocks_ok
  obtain ⟨inj, nonzero, _⟩ := of_decide_eq_true (pure_ok_iff.mp checked)
  simp only [sampleBlocks, ok_iff'] at ran
  obtain ⟨_, valid, _, _, first, _, valid', _, s, second, rfl⟩ := ran
  have chain :=
    (Chain.empty.apply valid (separated_of_first (by decide +kernel)) first).apply valid'
    (separated_of_first (by decide +kernel)) second
  have apart : Set.InjOn _ { input | input ∈ s.trie.hashed } := fun a left b right =>
    inj a left b right
  exact ⟨_, _, _, chain, (chain.no_double_spend apart nonzero fun _ mem => mem).2⟩

end AliceNet.Application
