import AliceNet.Application.LedgerRuns
import AliceNet.Library.Keyed

/-! What a transaction object remembers of the calls that were made before. -/

namespace AliceNet.Application

open Outcome Keyed Option
open Consensus (Fault)
open BadgerTrie (KV SMT)
open List

variable {env : Environment}

namespace TXOut

def rememberPreHash (env : Environment) : TXOut → TXOut
  | dataStore ds => dataStore ds
  | valueStore vs => valueStore { vs with preHash := some ((valueStore vs).preHash env) }

def Kept (env : Environment) (i : ℕ) : TXOut → Prop
  | dataStore _ => True
  | valueStore vs =>
    (∀ id, vs.utxoID = some id → vs.vsPreImage.txOutIdx = i ∧ id = makeUTXOID env vs.txHash i) ∧
      ∀ hsh, vs.preHash = some hsh → vs.vsPreImage.txOutIdx = i ∧
        hsh = env.hash (env.marshalVSPreImage vs.vsPreImage)

variable {utxo : TXOut} {i : ℕ}

theorem kept_stored (env : Environment) (utxo : TXOut) (i : ℕ) : utxo.stored.Kept env i := by
  cases utxo with
  | dataStore ds => trivial
  | valueStore vs => exact ⟨nofun, nofun⟩

section

variable (kept : utxo.Kept env i)

include kept

theorem Kept.setTxOutIdx : (utxo.setTxOutIdx i).Kept env i := by
  cases utxo with
  | dataStore ds => trivial
  | valueStore vs =>
    refine ⟨fun id held => ⟨rfl, (kept.1 id held).2⟩, fun hsh held => ⟨rfl, ?_⟩⟩
    obtain ⟨numbered, same⟩ := kept.2 hsh held
    rw [same, ← numbered]

theorem Kept.remember (numbered : utxo.txOutIdx = i) : (utxo.remember env).Kept env i := by
  cases utxo with
  | dataStore ds => trivial
  | valueStore vs =>
    refine ⟨fun id held => ⟨numbered, ?_⟩, kept.2⟩
    obtain rfl := some.inj held
    simp only [utxoID]
    cases known : vs.utxoID with
    | none => exact congrArg (makeUTXOID env vs.txHash) numbered
    | some id => exact (kept.1 id known).2

theorem Kept.rememberPreHash (numbered : utxo.txOutIdx = i) :
    (utxo.rememberPreHash env).Kept env i := by
  cases utxo with
  | dataStore ds => trivial
  | valueStore vs =>
    refine ⟨kept.1, fun hsh held => ⟨numbered, ?_⟩⟩
    obtain rfl := some.inj held
    simp only [preHash]
    cases known : vs.preHash with
    | none => rfl
    | some hsh => exact (kept.2 hsh known).2

theorem Kept.preHash_eq :
    (utxo.setTxOutIdx i).preHash env = (utxo.stored.setTxOutIdx i).preHash env := by
  cases utxo with
  | dataStore ds => rfl
  | valueStore vs =>
    simp only [TXOut.setTxOutIdx, stored, preHash, getD_none]
    cases known : vs.preHash with
    | none => rfl
    | some hsh =>
      obtain ⟨numbered, same⟩ := kept.2 hsh known
      rw [getD_some, same, ← numbered]

theorem Kept.utxoID_eq (numbered : utxo.txOutIdx = i) :
    utxo.utxoID env = makeUTXOID env utxo.txHash i := by
  cases utxo with
  | dataStore ds => exact congrArg (makeUTXOID env ds.txHash) numbered
  | valueStore vs =>
    simp only [utxoID, txHash]
    cases known : vs.utxoID with
    | none => exact congrArg (makeUTXOID env vs.txHash) numbered
    | some id => exact (kept.1 id known).2

end

theorem utxoID_remember (env : Environment) (utxo : TXOut) :
    (utxo.remember env).utxoID env = utxo.utxoID env := by
  cases utxo <;> rfl

theorem utxoID_rememberPreHash (env : Environment) (utxo : TXOut) :
    (utxo.rememberPreHash env).utxoID env = utxo.utxoID env := by
  cases utxo <;> rfl

theorem txOutIdx_setTxOutIdx (utxo : TXOut) (i : ℕ) : (utxo.setTxOutIdx i).txOutIdx = i := by
  cases utxo <;> rfl

theorem stored_setTxOutIdx (utxo : TXOut) (i j : ℕ) :
    ((utxo.setTxOutIdx i).stored).setTxOutIdx j = utxo.stored.setTxOutIdx j := by
  cases utxo <;> rfl

/-- Only what is remembered differs. -/
def SameContent (utxo utxo' : TXOut) : Prop :=
  utxo'.stored = utxo.stored

theorem SameContent.txHash {utxo' : TXOut} (same : utxo.SameContent utxo') :
    utxo'.txHash = utxo.txHash := by
  cases utxo <;> cases utxo' <;> simp_all [SameContent, stored, TXOut.txHash]

theorem sameContent_remember (env : Environment) (utxo : TXOut) :
    utxo.SameContent (utxo.remember env) := by
  cases utxo <;> rfl

theorem sameContent_rememberPreHash (env : Environment) (utxo : TXOut) :
    utxo.SameContent (utxo.rememberPreHash env) := by
  cases utxo <;> rfl

end TXOut

namespace Tx

def withVout (b : Tx) (vout : List TXOut) (length : vout.length = b.vout.length) : Tx :=
  { b with vout := vout, vout_length := length ▸ b.vout_length }

inductive Call
  | txHash
  | validateTxHash
  | validateUnique (opset : List Bytes32)
  | utxoID (idx : ℕ)
  | preHash (idx : ℕ)

def askUnique (env : Environment) : List TXOut → List Bytes32 → List TXOut
  | [], _ => []
  | utxo :: rest, opset =>
    utxo.remember env ::
      if opset.contains (utxo.utxoID env) then rest else
        askUnique env rest (utxo.utxoID env :: opset)

private theorem askUnique_length (vout : List TXOut) (opset : List Bytes32) :
    (askUnique env vout opset).length = vout.length := by
  induction vout generalizing opset with
  | nil => rfl
  | cons utxo rest ih =>
    rw [askUnique, length_cons, length_cons]
    split
    · rfl
    · rw [ih]

def called (env : Environment) (b : Tx) : Call → Tx
  | .txHash | .validateTxHash =>
    match b.TxHash env with
    | .ok b' => b'
    | .error _ => b.setTxOutIdx
  | .validateUnique opset =>
    match b.vin.foldlM (fun opset txIn => do
        insertUnique (.invalid "tx.validateUnique: duplicate input") opset (← txIn.utxoID env))
          opset with
    | .ok opset => b.withVout (askUnique env b.vout opset) (askUnique_length b.vout opset)
    | .error _ => b
  | .utxoID idx => b.withVout (b.vout.modify idx (TXOut.remember env)) (List.length_modify ..)
  | .preHash idx => b.withVout (b.vout.modify idx (TXOut.rememberPreHash env))
      (List.length_modify ..)

/-- The transaction as decoding gives it, with nothing remembered. -/
def decoded (b : Tx) : Tx :=
  { b with
    vout := b.vout.map TXOut.stored
    txHash := none
    vout_length := by rw [List.length_map]; exact b.vout_length }

def root (env : Environment) (b : Tx) : Except Fault (Option Bytes32) := do
  let leaves ← b.setTxOutIdx.leaves env
  if leaves = [] then pure (some (env.hash []))
  else
    let smt ← (SMT.Update env.hash SMT.new (sortKVs leaves)).mapError ofTrie
    pure smt.root

def IsHash (env : Environment) (b : Tx) (hsh : Bytes32) : Prop :=
  b.decoded.root env = .ok (some hsh)

theorem TxHash_eq_ok_iff {b b' : Tx} (fresh : b.txHash = none) :
    b.TxHash env = .ok b' ↔ ∃ hsh, b.root env = .ok hsh ∧ b' = { b.setTxOutIdx with
      txHash := hsh } := by
  simp only [TxHash, fresh, root, bind_ok_iff]
  constructor
  · rintro ⟨leaves, found, done⟩
    split at done
    · rename_i empty
      refine ⟨some (env.hash []), ⟨leaves, found, ?_⟩, (pure_ok_iff.mp done).symm⟩
      rw [if_pos empty]
      rfl
    · rename_i filled
      obtain ⟨smt, updated, done⟩ := bind_ok_iff.mp done
      refine ⟨smt.root, ⟨leaves, found, ?_⟩, (pure_ok_iff.mp done).symm⟩
      rw [if_neg filled]
      exact bind_ok_iff.mpr ⟨smt, updated, rfl⟩
  · rintro ⟨hsh, ⟨leaves, found, done⟩, rfl⟩
    refine ⟨leaves, found, ?_⟩
    split at done
    · rename_i empty
      rw [if_pos empty, ← pure_ok_iff.mp done]
      rfl
    · rename_i filled
      obtain ⟨smt, updated, done⟩ := bind_ok_iff.mp done
      rw [if_neg filled, ← pure_ok_iff.mp done]
      exact bind_ok_iff.mpr ⟨smt, updated, rfl⟩

/-- Nothing that is remembered goes back to another numbering. -/
def Kept (env : Environment) (b : Tx) : Prop :=
  ∀ (i : ℕ) (utxo : TXOut), b.vout[i]? = some utxo → utxo.Kept env i

theorem Kept.root_same {b : Tx} (kept : b.Kept env) : b.root env = b.decoded.root env := by
  have leaves : b.setTxOutIdx.leaves env = b.decoded.setTxOutIdx.leaves env := by
    have outputs : (Vout.setTxOutIdx b.vout).map (TXOut.preHash env) =
        (Vout.setTxOutIdx (b.vout.map TXOut.stored)).map (TXOut.preHash env) := by
      refine ext_getElem? fun i => ?_
      simp only [Vout.setTxOutIdx, getElem?_map, getElem?_mapIdx]
      cases found : b.vout[i]? with
      | none => rfl
      | some utxo => exact congrArg some (kept i utxo found).preHash_eq
    have pairs : ∀ vout : List TXOut, (vout.mapIdx fun idx utxo =>
        (⟨makeUTXOID env (utxo.preHash env) idx, utxo.preHash env⟩ : KV)) =
        (vout.map (TXOut.preHash env)).mapIdx fun idx hsh => ⟨makeUTXOID env hsh idx, hsh⟩ := by
      intro vout
      refine ext_getElem? fun i => ?_
      simp only [getElem?_map, getElem?_mapIdx, Option.map_map]
      rfl
    simp only [Tx.leaves, setTxOutIdx, decoded, pairs, outputs]
  simp only [root, leaves]

/-- The fields hold the hash of the transaction, and the outputs have the ids derived from it. -/
structure Authentic (env : Environment) (b : Tx) (hsh : Bytes32) : Prop where
  hash : b.IsHash env hsh
  vin : ∀ txIn ∈ b.vin, txIn.txHash = hsh
  vout : ∀ utxo ∈ b.vout, utxo.txHash = hsh
  ids : ∀ (i : ℕ) (utxo : TXOut), b.vout[i]? = some utxo → utxo.utxoID env = makeUTXOID env hsh i

def Allows (env : Environment) (b : Tx) : Call → Prop
  | .txHash => b.txHash ≠ none
  | .validateTxHash => ∃ b', b.validateTxHash env = .ok b'
  | .validateUnique _ => ∀ (i : ℕ) (utxo : TXOut), b.vout[i]? = some utxo → utxo.txOutIdx = i
  | .utxoID idx | .preHash idx => ∀ utxo, b.vout[idx]? = some utxo → utxo.txOutIdx = idx

/-- A hash that is kept has been checked against the fields. -/
structure Sound (env : Environment) (b : Tx) : Prop where
  kept : b.Kept env
  known : ∀ hsh, b.txHash = some hsh → b.Authentic env hsh

private theorem sound_decoded (env : Environment) (b : Tx) : b.decoded.Sound env where
  kept i utxo found := by
    simp only [decoded, getElem?_map, map_eq_some_iff] at found
    obtain ⟨utxo, -, rfl⟩ := found
    exact TXOut.kept_stored env utxo i
  known _ kept := nomatch kept

variable {b b' : Tx}

theorem decoded_setTxOutIdx_root (b : Tx) (hsh : Option Bytes32) :
    ({ b.setTxOutIdx with txHash := hsh } : Tx).decoded.root env = b.decoded.root env := by
  have same : ({ b.setTxOutIdx with txHash := hsh } : Tx).decoded.setTxOutIdx =
      b.decoded.setTxOutIdx := by
    have outputs : Vout.setTxOutIdx ((Vout.setTxOutIdx b.vout).map TXOut.stored) =
        Vout.setTxOutIdx (b.vout.map TXOut.stored) := by
      refine ext_getElem? fun i => ?_
      simp only [Vout.setTxOutIdx, getElem?_map, getElem?_mapIdx, Option.map_map]
      cases b.vout[i]? with
      | none => rfl
      | some utxo => exact congrArg some (TXOut.stored_setTxOutIdx utxo i i)
    simp only [setTxOutIdx, decoded, outputs]
  simp only [root, same]

theorem Kept.validated (kept : b.Kept env) (fresh : b.txHash = none)
    (valid : b.validateTxHash env = .ok b') :
    ∃ hsh, b'.txHash = some hsh ∧ b'.Authentic env hsh := by
  simp only [validateTxHash, fresh, ok_iff] at valid
  obtain ⟨_, hashed, _, inputs, _, outputs, rfl⟩ := valid
  obtain ⟨root, computed, rfl⟩ := (TxHash_eq_ok_iff fresh).mp hashed
  have known : ∃ hsh, root = some hsh := by
    cases ins : b.vin with
    | cons txIn rest => exact ⟨txIn.txHash, (inputs txIn (by simp [setTxOutIdx, ins])).symm⟩
    | nil =>
      cases outs : b.vout with
      | cons utxo rest =>
        exact ⟨_,
          (outputs (utxo.setTxOutIdx 0) (by simp [setTxOutIdx, Vout.setTxOutIdx, outs])).symm⟩
      | nil =>
        have empty : b.setTxOutIdx.leaves env = .ok [] := by
          simp [Tx.leaves, setTxOutIdx, Vout.setTxOutIdx, ins, outs, pure, Except.pure, bind,
            Except.bind]
        simp only [Tx.root, empty, bind_ok_iff] at computed
        obtain ⟨leaves, same, done⟩ := computed
        rw [← Except.ok.inj same, if_pos rfl] at done
        exact ⟨_, (pure_ok_iff.mp done).symm⟩
  obtain ⟨hsh, rfl⟩ := known
  refine ⟨hsh, rfl, ?_, fun txIn mem => some.inj (inputs txIn mem),
    fun utxo mem => some.inj (outputs utxo mem), fun i utxo found => ?_⟩
  · rw [IsHash, decoded_setTxOutIdx_root, ← kept.root_same]
    exact computed
  · have field := some.inj (outputs utxo (mem_of_getElem? found))
    simp only [setTxOutIdx, Vout.setTxOutIdx, getElem?_mapIdx, map_eq_some_iff] at found
    obtain ⟨utxo, found, rfl⟩ := found
    rw [(kept i utxo found).setTxOutIdx.utxoID_eq (utxo.txOutIdx_setTxOutIdx i), field]

theorem Sound.validated (sound : b.Sound env) (valid : b.validateTxHash env = .ok b') :
    ∃ hsh, b'.txHash = some hsh ∧ b'.Authentic env hsh := by
  cases keeps : b.txHash with
  | none => exact sound.kept.validated keeps valid
  | some hsh =>
    simp only [validateTxHash, keeps] at valid
    obtain rfl := pure_ok_iff.mp valid
    exact ⟨hsh, keeps, sound.known hsh keeps⟩

theorem Kept.validateTxHash (kept : b.Kept env) (valid : b.validateTxHash env = .ok b') :
    b'.Kept env := by
  cases keeps : b.txHash with
  | some hsh =>
    simp only [Tx.validateTxHash, keeps] at valid
    obtain rfl := pure_ok_iff.mp valid
    exact kept
  | none =>
    simp only [Tx.validateTxHash, keeps, ok_iff] at valid
    obtain ⟨_, hashed, -, -, -, -, rfl⟩ := valid
    obtain ⟨root, -, rfl⟩ := (TxHash_eq_ok_iff keeps).mp hashed
    intro i utxo found
    simp only [setTxOutIdx, Vout.setTxOutIdx, getElem?_mapIdx, map_eq_some_iff] at found
    obtain ⟨utxo, found, rfl⟩ := found
    exact (kept i utxo found).setTxOutIdx

private theorem called_of_validateTxHash (valid : b.validateTxHash env = .ok b') :
    b.called env .validateTxHash = b' := by
  cases keeps : b.txHash with
  | some hsh =>
    simp only [validateTxHash, keeps] at valid
    obtain rfl := pure_ok_iff.mp valid
    simp [called, TxHash, keeps, pure, Except.pure]
  | none =>
    simp only [validateTxHash, keeps, ok_iff] at valid
    obtain ⟨_, hashed, -, -, -, -, rfl⟩ := valid
    simp only [called, hashed]

theorem Sound.withVout {vout : List TXOut} (sound : b.Sound env)
    (length : vout.length = b.vout.length)
    (remembered : ∀ (i : ℕ) (utxo : TXOut), b.vout[i]? = some utxo → ∃ utxo',
      vout[i]? = some utxo' ∧ utxo.SameContent utxo' ∧ utxo'.Kept env i ∧ utxo'.utxoID env =
      utxo.utxoID env) : (b.withVout vout length).Sound env := by
  have back : ∀ (i : ℕ) (utxo' : TXOut), vout[i]? = some utxo' → ∃ utxo, b.vout[i]? = some utxo ∧
      utxo.SameContent utxo' ∧ utxo'.Kept env i ∧ utxo'.utxoID env = utxo.utxoID env := by
    intro i utxo' found
    have inside : i < b.vout.length := length ▸ (List.getElem?_eq_some_iff.mp found).1
    obtain ⟨utxo'', found', facts⟩ := remembered i _ (getElem?_eq_getElem inside)
    obtain rfl := some.inj (found.symm.trans found')
    exact ⟨_, getElem?_eq_getElem inside, facts⟩
  have content : vout.map TXOut.stored = b.vout.map TXOut.stored := by
    refine ext_getElem? fun i => ?_
    rw [getElem?_map, getElem?_map]
    cases found : b.vout[i]? with
    | none => rw [getElem?_eq_none_iff.mpr (length ▸ getElem?_eq_none_iff.mp found)]
    | some utxo =>
      obtain ⟨utxo', found', same, -⟩ := remembered i utxo found
      rw [found']
      exact congrArg some same
  have sameRoot : (b.withVout vout length).decoded = b.decoded := by
    simp only [decoded, Tx.withVout, content]
  refine ⟨fun i utxo' found => ?_, fun hsh keeps =>
    ⟨?_, (sound.known hsh keeps).vin, fun utxo' mem => ?_, fun i utxo' found => ?_⟩⟩
  · obtain ⟨-, -, -, kept, -⟩ := back i utxo' found
    exact kept
  · rw [IsHash, sameRoot]
    exact (sound.known hsh keeps).hash
  · obtain ⟨i, found⟩ := getElem?_of_mem mem
    obtain ⟨utxo, found, same, -⟩ := back i utxo' found
    rw [same.txHash]
    exact (sound.known hsh keeps).vout utxo (mem_of_getElem? found)
  · obtain ⟨utxo, found, -, -, same⟩ := back i utxo' found
    rw [same]
    exact (sound.known hsh keeps).ids i utxo found

theorem Sound.modify (sound : b.Sound env)
    (content : ∀ utxo : TXOut, utxo.SameContent (change utxo))
    (same : ∀ utxo : TXOut, (change utxo).utxoID env = utxo.utxoID env)
    (kept : ∀ utxo : TXOut, b.vout[idx]? = some utxo → (change utxo).Kept env idx) :
    (b.withVout (b.vout.modify idx change) (length_modify ..)).Sound env := by
  refine sound.withVout _ fun i utxo found => ?_
  rw [getElem?_modify, found]
  by_cases here : idx = i
  · subst here
    exact ⟨change utxo, by simp, content utxo, kept utxo found, same utxo⟩
  · exact ⟨utxo, by simp [here], rfl, sound.kept i utxo found, rfl⟩

private theorem askUnique_getElem? (vout : List TXOut) (opset : List Bytes32) (i : ℕ) (utxo : TXOut)
    (found : vout[i]? = some utxo) :
    (askUnique env vout opset)[i]? = some utxo ∨ (askUnique env vout opset)[i]? =
      some (utxo.remember env) := by
  induction vout generalizing opset i with
  | nil => cases found
  | cons head rest ih =>
    rw [askUnique]
    cases i with
    | zero =>
      obtain rfl := some.inj found
      exact .inr rfl
    | succ i =>
      split
      · exact .inl found
      · exact ih _ i found

theorem Sound.called (sound : b.Sound env) {call : Call} (allowed : b.Allows env call) :
    (b.called env call).Sound env := by
  cases call with
  | txHash =>
    cases keeps : b.txHash with
    | none => exact absurd keeps allowed
    | some hsh =>
      have unchanged : b.called env .txHash = b := by simp [Tx.called, TxHash, keeps, pure,
        Except.pure]
      rw [unchanged]
      exact sound
  | validateTxHash =>
    obtain ⟨b', valid⟩ := allowed
    obtain ⟨hsh, keeps, authentic⟩ := sound.validated valid
    rw [called_of_validateTxHash valid]
    refine ⟨sound.kept.validateTxHash valid, fun hsh' keeps' => ?_⟩
    obtain rfl := some.inj (keeps.symm.trans keeps')
    exact authentic
  | validateUnique opset =>
    simp only [Tx.called]
    split
    · refine sound.withVout _ fun i utxo found => ?_
      rcases askUnique_getElem? b.vout _ i utxo found with same | remembered
      · exact ⟨utxo, same, rfl, sound.kept i utxo found, rfl⟩
      · exact ⟨_, remembered, utxo.sameContent_remember env,
          (sound.kept i utxo found).remember (allowed i utxo found),
          utxo.utxoID_remember env⟩
    · exact sound
  | utxoID idx =>
    exact sound.modify (TXOut.sameContent_remember env) (TXOut.utxoID_remember env)
      fun utxo found => (sound.kept idx utxo found).remember (allowed utxo found)
  | preHash idx =>
    exact sound.modify (TXOut.sameContent_rememberPreHash env) (TXOut.utxoID_rememberPreHash env)
      fun utxo found => (sound.kept idx utxo found).rememberPreHash (allowed utxo found)

theorem Sound.calledAll (sound : b.Sound env)
    (allowed : Along (Tx.called env) (Allows env) b calls) :
    (calls.foldl (Tx.called env) b).Sound env := by
  induction calls generalizing b with
  | nil => exact sound
  | cons call rest ih => exact ih (sound.called allowed.1) allowed.2

/-- If nothing asks for the hash of a decoded transaction before `ValidateTxHash` does, no call
follows a `ValidateTxHash` that failed, and outputs are asked for ids and hashes only once they have
the numbers of their places, then a transaction that passes is what its fields say. -/
theorem validateTxHash_sound (env : Environment) (b : Tx) (calls : List Call)
    (allowed : Along (Tx.called env) (Allows env) b.decoded calls) (b' : Tx)
    (valid : (calls.foldl (Tx.called env) b.decoded).validateTxHash env = .ok b') :
    ∃ hsh, b'.Authentic env hsh := by
  obtain ⟨hsh, -, authentic⟩ := ((sound_decoded env b).calledAll allowed).validated valid
  exact ⟨hsh, authentic⟩

def sampleTxHash : Bytes32 :=
    78438486160369038803072932036616713415860898541326936047559518193167038306209

private theorem validateTxHash_of_root {hsh : Bytes32} (fresh : b.txHash = none)
    (computed : b.root env = .ok (some hsh)) (inputs : ∀ txIn ∈ b.vin, txIn.txHash = hsh)
    (outputs : ∀ utxo ∈ Vout.setTxOutIdx b.vout, utxo.txHash = hsh) :
    b.validateTxHash env = .ok { b.setTxOutIdx with txHash := some hsh } := by
  simp only [validateTxHash, fresh]
  refine bind_ok_iff.mpr ⟨_, (TxHash_eq_ok_iff fresh).mpr ⟨_, computed, rfl⟩, ?_⟩
  refine bind_ok_iff.mpr ⟨(), require_of (fun txIn mem => congrArg some (inputs txIn mem)) _, ?_⟩
  exact bind_ok_iff.mpr ⟨(), require_of (fun utxo mem => congrArg some (outputs utxo mem)) _, rfl⟩

/-- The output is asked for its id first. -/
theorem validateTxHash_sound_transfer : ∃ b' hsh,
    ([Call.utxoID 0].foldl (called sampleEnvironment)
      (sampleTransfer sampleTxHash 9 MaxUint32 10).decoded).validateTxHash sampleEnvironment =
        .ok b' ∧
      b'.Authentic sampleEnvironment hsh := by
  have computed :
      ((sampleTransfer sampleTxHash 9 MaxUint32 10).decoded.called sampleEnvironment
      (.utxoID 0)).root
      sampleEnvironment = .ok (some sampleTxHash) := by
    decide +kernel
  have valid : ((sampleTransfer sampleTxHash 9 MaxUint32 10).decoded.called sampleEnvironment
      (.utxoID 0)).validateTxHash sampleEnvironment = _ :=
    validateTxHash_of_root rfl computed (forall_mem_singleton.mpr rfl)
      (forall_mem_singleton.mpr rfl)
  have numbered : ∀ utxo, (sampleTransfer sampleTxHash 9 MaxUint32 10).decoded.vout[0]? =
      some utxo → utxo.txOutIdx = 0 := by
    rintro _ ⟨⟩
    rfl
  obtain ⟨hsh, authentic⟩ := validateTxHash_sound sampleEnvironment _ [.utxoID 0] ⟨numbered,
    trivial⟩ _ valid
  exact ⟨_, hsh, valid, authentic⟩

/-- As in the download of a transaction: its hash is asked for, then it is validated. The fields
hold a number of the sender's choice. -/
theorem validateTxHash_forged : ∃ b', ([Call.txHash].foldl (called sampleEnvironment)
      (sampleTransfer 101 9 MaxUint32 10).decoded).validateTxHash sampleEnvironment = .ok b' ∧
    (∀ utxo ∈ b'.vout, utxo.txHash = 101) ∧ ∀ hsh, ¬b'.Authentic sampleEnvironment hsh := by
  have computed : (sampleTransfer 101 9 MaxUint32 10).decoded.root sampleEnvironment =
      .ok (some sampleTxHash) := by
    decide +kernel
  have hashed := (TxHash_eq_ok_iff rfl).mpr ⟨_, computed, rfl⟩
  have reached : (sampleTransfer 101 9 MaxUint32 10).decoded.called sampleEnvironment .txHash =
      { (sampleTransfer 101 9 MaxUint32 10).decoded.setTxOutIdx with
          txHash := some sampleTxHash } := by
    simp only [called, hashed]
  refine ⟨{ (sampleTransfer 101 9 MaxUint32 10).decoded.setTxOutIdx with
    txHash := some sampleTxHash }, ?_,
    forall_mem_singleton.mpr rfl, fun hsh authentic => ?_⟩
  · rw [foldl_cons, foldl_nil, reached]
    rfl
  · have hash := authentic.hash
    have again : (sampleTransfer 101 9 MaxUint32 10).decoded.decoded.root sampleEnvironment =
        .ok (some sampleTxHash) := by
      decide +kernel
    have same : hsh = sampleTxHash := some.inj (Except.ok.inj (hash.symm.trans again))
    have field : 101 = hsh := authentic.vin ⟨⟨1, MaxUint32, 9⟩, 101, []⟩ (mem_singleton_self _)
    exact absurd (field.trans same) (by decide +kernel)

end Tx

end AliceNet.Application
