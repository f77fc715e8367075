import AliceNet.Application.UTXOHandler
import AliceNet.Library.Cursor

/-! The values of an owner, page by page. An index is the entries of one owner in the order of their
keys. -/

namespace AliceNet.Application

open List

open Consensus (Fault)
open Outcome (require bind_ok_iff pure_ok_iff require_ok_iff require_of)

structure ValueEntry where
  value : ℕ
  utxoID : Bytes32
  word : value < 2 ^ 256
  deriving DecidableEq

namespace ValueIndex

/-- `space` is the one of the two indexes that the key is for. -/
def makeKey (space : Bytes) (owner : Owner) (entry : ValueEntry) : Bytes :=
  space ++ owner.marshalBinary ++ Bytes.bigEndian 32 entry.value ++ entry.utxoID.toBytes

@[irreducible] def rank (space : Bytes) (owner : Owner) (entry : ValueEntry) : ℕ :=
  Bytes.value (makeKey space owner entry)

theorem rank_eq (space : Bytes) (owner : Owner) (entry : ValueEntry) : rank space owner entry =
    (Bytes.value (space ++ owner.marshalBinary) * 2 ^ 256 + entry.value) * 2 ^ 256 +
      entry.utxoID.toNat := by
  have size : 256 ^ 32 = 2 ^ 256 := by norm_num
  rw [rank, makeKey, Bytes.value_append, Bytes.value_append, Bytes32.length_toBytes,
    Bytes.length_bigEndian, Bytes32.toBytes, Bytes.value_bigEndian, Bytes.value_bigEndian, size,
    Nat.mod_eq_of_lt entry.word, Nat.mod_eq_of_lt entry.utxoID.isLt]

abbrev Table (space : Bytes) (owner : Owner) :=
  SortedTable ValueEntry (rank space owner)

def scan (minValue : ℕ) (excludeFn : Bytes32 → Except Fault Bool) (maxCount : ℕ) :
    List ValueEntry → (result : List Bytes32) → (totalValue : ℕ) →
      Except Fault (List Bytes32 × ℕ × Option ValueEntry)
  | [], result, totalValue => pure (result, totalValue, none)
  | entry :: rest, result, totalValue => do
    if ← excludeFn entry.utxoID then scan minValue excludeFn maxCount rest result totalValue
    else
      let totalValue ← Uint256.add totalValue entry.value
      let result := result ++ [entry.utxoID]
      if minValue ≤ totalValue then pure (result, totalValue, none)
      else if maxCount ≤ result.length then pure (result, totalValue, some entry)
      else scan minValue excludeFn maxCount rest result totalValue

def visited {space : Bytes} {owner : Owner} (table : Table space owner) : (lastKey : Option Bytes) →
    List ValueEntry
  | none => table.entries
  | some lastKey => (table.seek (Bytes.value lastKey)).tail

def GetValueForOwner {space : Bytes} {owner : Owner} (table : Table space owner) (minValue : ℕ)
    (excludeFn : Bytes32 → Except Fault Bool) (maxCount : ℕ) (lastKey : Option Bytes) :
    Except Fault (List Bytes32 × ℕ × Option Bytes) := do
  let (result, totalValue, last) ← scan minValue excludeFn maxCount (visited table lastKey) [] 0
  pure (result, totalValue, last.map (makeKey space owner))

def Resumes {space : Bytes} {owner : Owner} (table : Table space owner) (lastKey : Bytes) : Prop :=
  ∀ minValue excludeFn maxCount,
      GetValueForOwner table minValue excludeFn maxCount (some lastKey) = do
    let (result, totalValue, last) ← scan minValue excludeFn maxCount
      (table.after (Bytes.value lastKey)) [] 0
    pure (result, totalValue, last.map (makeKey space owner))

theorem scan_first (entry : ValueEntry) (rest : List ValueEntry) :
    scan 0 (fun _ => pure false) 1 (entry :: rest) [] 0 = .ok ([entry.utxoID], entry.value,
      none) := by
  refine bind_ok_iff.mpr ⟨false, rfl, ?_⟩
  refine bind_ok_iff.mpr ⟨entry.value, Word.add_ok_iff.mpr ⟨by rw [Nat.zero_add]; exact entry.word,
    Nat.zero_add _⟩, ?_⟩
  rw [if_pos (Nat.zero_le _)]
  rfl

private theorem scan_tail_ne {entry : ValueEntry} (fresh : entry ∉ rest) :
    scan 0 (fun _ => pure false) 1 rest [] 0 ≠ scan 0 (fun _ => pure false) 1 (entry :: rest)
      [] 0 := by
  rw [scan_first]
  cases rest with
  | nil => nofun
  | cons other rest =>
    rw [scan_first]
    intro same
    simp only [Except.ok.injEq, Prod.mk.injEq, cons.injEq, and_true] at same
    have equal : other = entry := by
      cases other
      cases entry
      simp only [ValueEntry.mk.injEq]
      exact ⟨same.2, same.1⟩
    exact fresh (equal ▸ mem_cons_self)

private theorem nodup_after {owner : Owner} (table : Table space owner) (start : ℕ) :
    (table.after start).Nodup := by
  refine List.Nodup.filter _ (table.sorted.imp fun {a b} below same => ?_)
  rw [same] at below
  exact lt_irrefl _ below

/-- The entry of the last key has to be there still, or nothing may follow. -/
theorem resumes_iff {space : Bytes} {owner : Owner} (table : Table space owner) (lastKey : Bytes) :
    Resumes table lastKey ↔
      (∃ entry ∈ table.entries, rank space owner entry = Bytes.value lastKey) ∨
      table.after (Bytes.value lastKey) = [] := by
  constructor
  · intro resumes
    by_contra neither
    rw [not_or, not_exists] at neither
    have absent : ∀ entry ∈ table.entries, rank space owner entry ≠ Bytes.value lastKey :=
      fun entry mem same => neither.1 entry ⟨mem, same⟩
    obtain ⟨entry, rest, split⟩ := exists_cons_of_ne_nil neither.2
    have distinct := nodup_after table (Bytes.value lastKey)
    have resumed := resumes 0 (fun _ => pure false) 1
    rw [GetValueForOwner, visited, SortedTable.seek_of_absent absent, split, tail_cons] at resumed
    rw [split, nodup_cons] at distinct
    refine scan_tail_ne distinct.1 ?_
    rw [scan_first] at resumed ⊢
    change _ = Except.ok ([entry.utxoID], entry.value, (none : Option Bytes)) at resumed
    obtain ⟨⟨result, totalValue, last⟩, scanned, same⟩ := bind_ok_iff.mp resumed
    rw [pure_ok_iff, Prod.mk.injEq, Prod.mk.injEq, Option.map_eq_none_iff] at same
    rw [scanned, same.1, same.2.1, same.2.2]
  · intro condition minValue excludeFn maxCount
    by_cases present : ∃ entry ∈ table.entries, rank space owner entry = Bytes.value lastKey
    · obtain ⟨entry, mem, same⟩ := present
      rw [GetValueForOwner, visited, ← same, SortedTable.seek_of_mem mem, tail_cons]
    · have absent : ∀ entry ∈ table.entries, rank space owner entry ≠ Bytes.value lastKey :=
        fun entry mem same => present ⟨entry, mem, same⟩
      rw [GetValueForOwner, visited, SortedTable.seek_of_absent absent,
        condition.resolve_left present, tail_nil]

def sampleSmall : ValueEntry := ⟨1, 11, by decide⟩
def sampleLarge : ValueEntry := ⟨2, 12, by decide⟩

def sampleSpace : Bytes := [110, 48]
def sampleHolder : Owner := ⟨.secp256k1, 5⟩

def sampleBefore : Table sampleSpace sampleHolder where
  entries := [sampleSmall, sampleLarge]
  sorted := by decide +kernel

def sampleAfter : Table sampleSpace sampleHolder where
  entries := [sampleLarge]
  sorted := by decide

/-- The entry of the last key has been dropped, and with it the next one is skipped. -/
theorem next_entry_skipped : ∃ lastKey,
    GetValueForOwner sampleBefore 10 (fun _ => pure false) 1 none = .ok ([11], 1, some lastKey) ∧
    GetValueForOwner sampleAfter 10 (fun _ => pure false) 1 (some lastKey) = .ok ([], 0, none) ∧
    sampleAfter.after (Bytes.value lastKey) = [sampleLarge] := by
  refine ⟨makeKey sampleSpace sampleHolder sampleSmall, ?_, ?_, ?_⟩ <;> decide +kernel

end ValueIndex

end AliceNet.Application
