import AliceNet.Application.TxHashes

/-! A value store whose fields are set again after it was asked for its hashes. -/

namespace AliceNet.Application.ValueStore

open Keyed

inductive Call
  | setTxHash (txHash : Bytes32)
  | setTxOutIdx (idx : ℕ)
  | utxoID
  | preHash

variable (env : Environment)

/-- The setters leave what is remembered as it is. -/
def called (b : ValueStore) : Call → ValueStore
  | .setTxHash txHash => { b with txHash }
  | .setTxOutIdx idx => { b with vsPreImage := { b.vsPreImage with txOutIdx := idx } }
  | .utxoID => { b with utxoID := some ((TXOut.valueStore b).utxoID env) }
  | .preHash => { b with preHash := some ((TXOut.valueStore b).preHash env) }

/-- The store as it is made or decoded -/
def fresh (b : ValueStore) : ValueStore := { b with utxoID := none, preHash := none }

def currentUTXOID (b : ValueStore) : Bytes32 := makeUTXOID env b.txHash b.vsPreImage.txOutIdx

def currentPreHash (b : ValueStore) : Bytes32 := env.hash (env.marshalVSPreImage b.vsPreImage)

/-- The store answers for the fields that it has now. -/
def UpToDate (b : ValueStore) : Prop :=
  (TXOut.valueStore b).utxoID env = b.currentUTXOID env ∧ (TXOut.valueStore b).preHash env =
    b.currentPreHash env

/-- A call leaves the hashes as they are that are remembered. -/
def Kept (b : ValueStore) (call : Call) : Prop :=
  (b.utxoID.isSome → (b.called env call).currentUTXOID env = b.currentUTXOID env) ∧
    (b.preHash.isSome → (b.called env call).currentPreHash env = b.currentPreHash env)

variable {env}

private theorem getD_eq_iff {held : Option α} (known : held.getD current = current) :
    held.getD next = next ↔ (held.isSome → next = current) := by
  cases held with
  | none => simp
  | some value =>
    obtain rfl : value = current := known
    simp [eq_comm]

theorem UpToDate.called_iff {b : ValueStore} (upToDate : b.UpToDate env) (call : Call) :
    (b.called env call).UpToDate env ↔ b.Kept env call := by
  obtain ⟨utxoID, preHash⟩ := upToDate
  cases call with
  | setTxHash | setTxOutIdx => exact and_congr (getD_eq_iff utxoID) (getD_eq_iff preHash)
  | utxoID => exact iff_of_true ⟨utxoID, preHash⟩ ⟨fun _ => rfl, fun _ => rfl⟩
  | preHash => exact iff_of_true ⟨utxoID, preHash⟩ ⟨fun _ => rfl, fun _ => rfl⟩

/-- After each of the calls the store answers for its present fields, exactly if none of them
changes a hash that the store has been asked for before. -/
theorem calls_upToDate_iff (env : Environment) (b : ValueStore) (calls : List Call) :
    Along (called env) (fun b call => (b.called env call).UpToDate env) b.fresh calls ↔
      Along (called env) (Kept env) b.fresh calls :=
  along_invariant_iff (UpToDate env) ⟨rfl, rfl⟩ fun _ call upToDate => upToDate.called_iff call

def sampleStore (idx : ℕ) : ValueStore := ⟨⟨1, 10, idx, sampleOwner, 0⟩, 7, none, none⟩

/-- A store that is checked before its transaction has a hash keeps the id that it had then, and one
that becomes the second output keeps the hash of the first. -/
theorem calls_outdated :
    ¬ Along (called sampleEnvironment) (fun b call =>
      (b.called sampleEnvironment call).UpToDate sampleEnvironment)
      (sampleStore MaxUint32).fresh [.utxoID, .setTxHash 8] ∧
    ¬ Along (called sampleEnvironment) (fun b call =>
      (b.called sampleEnvironment call).UpToDate sampleEnvironment)
      (sampleStore 0).fresh [.preHash, .setTxOutIdx 1] := by
  refine ⟨fun along => ?_, fun along => ?_⟩
  · exact absurd along.2.1.1 (by decide)
  · exact absurd along.2.1.2 (by decide +kernel)

end AliceNet.Application.ValueStore
