import AliceNet.Application.UTXOHandler
import AliceNet.Library.Cursor
import AliceNet.Library.Keyed

/-! The indexes of the pool of pending transactions. -/

namespace AliceNet.Application

open Outcome
open Consensus (Fault)

structure Link where
  txHash : Bytes32
  utxoID : Bytes32
  deriving DecidableEq, Repr

/-- A part of fixed length and then a hash, as a number. -/
@[irreducible] def joinedKey (first : BitVec w) (second : Bytes32) : ℕ :=
    first.toNat * 2 ^ 256 + second.toNat

theorem joinedKey_inj : joinedKey a b = joinedKey c d ↔ a = c ∧ b = d := by
  unfold joinedKey
  refine ⟨fun same => ?_, fun ⟨first, second⟩ => by rw [first, second]⟩
  have := b.isLt
  have := d.isLt
  have first : a.toNat = c.toNat := by omega
  exact ⟨BitVec.eq_of_toNat_eq first, BitVec.eq_of_toNat_eq (by omega)⟩

namespace Link

def refKey (link : Link) : ℕ := joinedKey link.txHash link.utxoID

def revRefKey (link : Link) : ℕ := joinedKey link.utxoID link.txHash

theorem refKey_injective : Function.Injective refKey := by
  rintro ⟨a, b⟩ ⟨c, d⟩ same
  obtain ⟨rfl, rfl⟩ := joinedKey_inj.mp same
  rfl

theorem revRefKey_injective : Function.Injective revRefKey := by
  rintro ⟨a, b⟩ ⟨c, d⟩ same
  obtain ⟨rfl, rfl⟩ := joinedKey_inj.mp same
  rfl

end Link

namespace RefCounter

/-- The new count, and the counters with it. -/
def Increment (counts : Bytes32 → Option ℕ) (utxoID : Bytes32) : ℕ × (Bytes32 → Option ℕ) :=
  match counts utxoID with
  | none => (1, Function.update counts utxoID (some 1))
  | some v => (v + 1, Function.update counts utxoID (some (v + 1)))

/-- A counter that comes to zero is deleted. -/
def Decrement (counts : Bytes32 → Option ℕ) (utxoID : Bytes32) : Bytes32 → Option ℕ :=
  match counts utxoID with
  | none => counts
  | some v => if 0 < v - 1 then Function.update counts utxoID (some (v - 1)) else
      Function.update counts utxoID none

end RefCounter

/-- `ref` is in the order of the transactions, `revRef` in that of the outputs. -/
structure RefLinker where
  counts : Bytes32 → Option ℕ
  ref : SortedTable Link Link.refKey
  revRef : SortedTable Link Link.revRefKey

namespace RefLinker

def empty : RefLinker := ⟨fun _ => none, .empty, .empty⟩

def threshold : ℕ := 3

def cut (rl : RefLinker) (link : Link) : RefLinker :=
  { rl with ref := rl.ref.erase link, revRef := rl.revRef.erase link }

/-- Both entries go, and the counter of the output with them. -/
def unlink (rl : RefLinker) (link : Link) : RefLinker :=
  { rl.cut link with counts := RefCounter.Decrement rl.counts link.utxoID }

def Delete (rl : RefLinker) (txHash : Bytes32) : RefLinker :=
  (rl.ref.entries.filter fun link => link.txHash = txHash).foldl unlink rl

def evictOne (rl : RefLinker) (utxoID : Bytes32) : Except Fault (Bytes32 × RefLinker) :=
  match rl.revRef.entries.find? fun link => link.utxoID = utxoID with
  | none => .error (.other "no item")
  | some link => .ok (link.txHash, rl.Delete link.txHash)

def addOne (txHash : Bytes32) (found : List Bytes32 × RefLinker) (utxoID : Bytes32) :
    Except Fault (List Bytes32 × RefLinker) := do
  let (evictions, rl) := found
  let (count, counts) := RefCounter.Increment rl.counts utxoID
  let rl := { rl with counts := counts }
  let (evictions, rl) ←
    if threshold < count then do
      let (txHashEvicted, rl) ← rl.evictOne utxoID
      pure (evictions ++ [txHashEvicted], rl)
    else pure (evictions, rl)
  let link : Link := ⟨txHash, utxoID⟩
  pure (evictions, { rl with ref := rl.ref.insert link, revRef := rl.revRef.insert link })

def Add (rl : RefLinker) (txHash : Bytes32) (utxoIDs : List Bytes32) :
    Except Fault (List Bytes32 × RefLinker) :=
  utxoIDs.foldlM (addOne txHash) ([], rl)

def release (found : List Bytes32 × RefLinker) (utxoID : Bytes32) : List Bytes32 × RefLinker :=
  let (txHashes, rl) := found
  let links := rl.revRef.entries.filter fun link => link.utxoID = utxoID
  (links.foldl (fun txHashes link => if txHashes.contains link.txHash then txHashes else
      txHashes ++ [link.txHash])
      txHashes,
    links.foldl cut { rl with counts := RefCounter.Decrement rl.counts utxoID })

def minedUTXOIDs (rl : RefLinker) (txHash : Bytes32) : List Bytes32 :=
  (rl.ref.entries.filter fun link => link.txHash = txHash).map Link.utxoID

def DeleteMined (rl : RefLinker) (txHash : Bytes32) : List Bytes32 × RefLinker :=
  (rl.minedUTXOIDs txHash).foldl release ([], rl)

end RefLinker

/-- The times of insertion; a key is the time, and then the hash. -/
abbrev InsertionOrderIndexer := ReverseIndex (ℕ × Bytes32) Unit Bytes32 ℕ

namespace InsertionOrderIndexer

def key (txHash : Bytes32) (time : ℕ) : ℕ × Bytes32 := (time, txHash)

def entry (_ : Bytes32) (_ : ℕ) : Unit := ()

def Add (index : InsertionOrderIndexer) (time : ℕ) (txHash : Bytes32) : InsertionOrderIndexer :=
  index.put key entry txHash time

def Delete (index : InsertionOrderIndexer) (txHash : Bytes32) :
    Except Fault InsertionOrderIndexer :=
  index.drop key .keyNotFound txHash

end InsertionOrderIndexer

structure Expiring where
  epoch : BitVec 32
  txHash : Bytes32
  deriving DecidableEq, Repr

def Expiring.key (item : Expiring) : ℕ := joinedKey item.epoch item.txHash

theorem Expiring.key_injective : Function.Injective Expiring.key := by
  rintro ⟨a, b⟩ ⟨c, d⟩ same
  obtain ⟨rfl, rfl⟩ := joinedKey_inj.mp same
  rfl

structure EpochConstrainedList where
  items : SortedTable Expiring Expiring.key
  refs : Bytes32 → Option (BitVec 32)

namespace EpochConstrainedList

def empty : EpochConstrainedList := ⟨.empty, fun _ => none⟩

def Append (list : EpochConstrainedList) (epoch : BitVec 32) (txHash : Bytes32) :
    EpochConstrainedList where
  items := list.items.insert ⟨epoch, txHash⟩
  refs := Function.update list.refs txHash (some epoch)

/-- The entries of earlier epochs go; their references stay. -/
def DropBefore (list : EpochConstrainedList) (epoch : BitVec 32) :
    List Bytes32 × EpochConstrainedList :=
  let dropped := list.items.entries.filter fun item => item.epoch < epoch
  (dropped.map Expiring.txHash, { list with items := dropped.foldl SortedTable.erase list.items })

/-- The reference stays here as well. -/
def Drop (list : EpochConstrainedList) (txHash : Bytes32) : Except Fault EpochConstrainedList :=
  match list.refs txHash with
  | none => .error .keyNotFound
  | some epoch => .ok { list with items := list.items.erase ⟨epoch, txHash⟩ }

end EpochConstrainedList

structure PendingTxIndexer where
  order : InsertionOrderIndexer
  reflink : RefLinker
  expiration : EpochConstrainedList

namespace PendingTxIndexer

def empty : PendingTxIndexer := ⟨.empty, .empty, .empty⟩

/-- What is not found is left as it is. -/
def orKeep {α : Type} (result : Except Fault α) (old : α) : Except Fault α :=
  match result with
  | .error .keyNotFound => pure old
  | other => other

def DeleteOne (pti : PendingTxIndexer) (txHash : Bytes32) : Except Fault PendingTxIndexer := do
  let reflink := pti.reflink.Delete txHash
  let order ← orKeep (pti.order.Delete txHash) pti.order
  let expiration ← orKeep (pti.expiration.Drop txHash) pti.expiration
  pure ⟨order, reflink, expiration⟩

def Add (pti : PendingTxIndexer) (time : ℕ) (epoch : BitVec 32) (txHash : Bytes32)
    (utxoIDs : List Bytes32) : Except Fault (List Bytes32 × PendingTxIndexer) := do
  let pti := { pti with order := pti.order.Add time txHash }
  let (evicted, reflink) ← pti.reflink.Add txHash utxoIDs
  let pti ← evicted.foldlM DeleteOne { pti with reflink := reflink }
  pure (evicted, { pti with expiration := pti.expiration.Append epoch txHash })

/-- The loop over the hashes does for each what `DeleteOne` does. -/
def DeleteMined (pti : PendingTxIndexer) (txHash : Bytes32) :
    Except Fault (List Bytes32 × PendingTxIndexer) := do
  let (txHashes, reflink) := pti.reflink.DeleteMined txHash
  let txHashes := txHashes ++ [txHash]
  let pti ← txHashes.foldlM DeleteOne { pti with reflink := reflink }
  pure (txHashes, pti)

def DropBefore (pti : PendingTxIndexer) (epoch : BitVec 32) :
    Except Fault (List Bytes32 × PendingTxIndexer) := do
  let (txHashes, expiration) := pti.expiration.DropBefore epoch
  let pti ← txHashes.foldlM DeleteOne { pti with expiration := expiration }
  pure (txHashes, pti)

end PendingTxIndexer

end AliceNet.Application
