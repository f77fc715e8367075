import AliceNet.BadgerTrie.Authentication

/-!
The stored form of a batch: what `serializeBatch` writes, `parseBatch` reads back.
-/

namespace AliceNet.BadgerTrie

open Outcome
open List

private theorem testBit_byte : ∀ b0 b1 b2 b3 b4 b5 b6 b7 : Bool, ∀ k : Fin 8,
    (UInt8.ofNat ((if b0 then 2 ^ 7 else 0) +
      ((if b1 then 2 ^ 6 else 0) + ((if b2 then 2 ^ 5 else 0) +
      ((if b3 then 2 ^ 4 else 0) + ((if b4 then 2 ^ 3 else 0) + ((if b5 then 2 ^ 2 else 0) +
      ((if b6 then 2 ^ 1 else 0) + ((if b7 then 2 ^ 0 else 0) + 0))))))))).toNat.testBit (7 - k) =
      [b0, b1, b2, b3, b4, b5, b6, b7][k] := by
  decide +kernel

theorem isSet_bitmapOf (small : i < 32) : isSet (bitmapOf used ++ rest) i = used i := by
  have byte : i / 8 < 4 := by omega
  have bits :=
    testBit_byte (used (8 * (i / 8) + 0)) (used (8 * (i / 8) + 1)) (used (8 * (i / 8) + 2))
    (used (8 * (i / 8) + 3)) (used (8 * (i / 8) + 4)) (used (8 * (i / 8) + 5))
      (used (8 * (i / 8) + 6))
    (used (8 * (i / 8) + 7)) ⟨i % 8, Nat.mod_lt _ (by norm_num)⟩
  have same : 8 * (i / 8) + i % 8 = i := Nat.div_add_mod i 8
  have here : (bitmapOf used ++ rest).getD (i / 8) 0 = UInt8.ofNat (((range 8).map fun k =>
      if used (8 * (i / 8) + k) then 2 ^ (7 - k) else 0).sum) := by
    rw [getD_eq_getElem?_getD, getElem?_append_left (by simpa [bitmapOf] using byte)]
    simp [bitmapOf, getElem?_map, getElem?_range byte]
  rw [isSet, here]
  refine Eq.trans ?_ (bits.trans ?_)
  · rfl
  · have cases : ∀ k : Fin 8,
      [used (8 * (i / 8) + 0), used (8 * (i / 8) + 1), used (8 * (i / 8) + 2),
        used (8 * (i / 8) + 3), used (8 * (i / 8) + 4), used (8 * (i / 8) + 5),
          used (8 * (i / 8) + 6),
        used (8 * (i / 8) + 7)][k] = used (8 * (i / 8) + k) := by
      intro k
      fin_cases k <;> rfl
    rw [cases, same]

theorem length_bitmapOf (used : ℕ → Bool) : (bitmapOf used).length = 4 := by simp [bitmapOf]

/-- The byte strings that a batch of nodes can be. -/
structure RawBatch.Formed (batch : RawBatch) : Prop where
  slot : ∀ i, 1 ≤ i → i ≤ 30 → batch i = [] ∨ (batch i).length = 33
  beyond : ∀ i, 30 < i → batch i = []
  head : batch 0 = [0] ∨
    batch 0 = [1] ∧ (batch 1).length = 33 ∧ (batch 2).length = 33 ∧ ∀ i, 2 < i → batch i = []

private theorem slice_append :
    slice (front ++ (middle ++ back)) front.length middle.length = middle := by
  simp [slice]

private theorem length_flatten_slots (slots : ℕ → Bytes) (n : ℕ)
    (sized : ∀ i, i < n → slots i = [] ∨ (slots i).length = 33) :
    ((range n).map slots).flatten.length = 33 * ((range n).filter fun i =>
      slots i != []).length := by
  induction n with
  | zero => rfl
  | succ n ih =>
    have rest := ih fun i lt => sized i (by omega)
    rw [range_succ, map_append, flatten_append, length_append, rest, filter_append]
    rcases sized n (by omega) with empty | full
    · simp [empty]
    · have used : (slots n != []) = true := by
        rw [bne_iff_ne]
        rintro empty
        rw [empty] at full
        cases full
      simp [used, full]
      omega

private theorem flatten_slots (slots : ℕ → Bytes) (within : i < n) :
    ∃ back, ((range n).map slots).flatten = ((range i).map slots).flatten ++ (slots i ++ back) := by
  obtain ⟨rest, rfl⟩ := Nat.exists_eq_add_of_lt within
  rw [add_assoc, range_add, map_append, flatten_append, range_succ_eq_map]
  exact ⟨_, by simp [flatten_cons]; rfl⟩

section

variable {batch : RawBatch}

private theorem isSet_serializeBatch_31 : isSet (serializeBatch batch) 31 = (batch 0 == [1]) := by
  rw [serializeBatch, isSet_bitmapOf (by norm_num)]
  simp

theorem isSet_serializeBatch (within : i < 30) :
    isSet (serializeBatch batch) i = (batch (i + 1) != []) := by
  have other : i ≠ 31 := by omega
  rw [serializeBatch, isSet_bitmapOf (by omega)]
  simp [within, other]

theorem rank_serializeBatch (within : i ≤ 30) :
    rank (serializeBatch batch) i = ((range i).filter fun k => batch (k + 1) != []).length := by
  unfold rank
  congr 1
  refine filter_congr fun k mem => ?_
  exact isSet_serializeBatch (by have := mem_range.mp mem; omega)

theorem RawBatch.Formed.length_upto (formed : batch.Formed) (within : i ≤ 30) :
    ((range i).map fun k => batch (k + 1)).flatten.length = 33 * rank (serializeBatch batch) i := by
  rw [rank_serializeBatch within]
  exact length_flatten_slots (fun k => batch (k + 1)) i fun k lt =>
    formed.slot _ (by omega) (by omega)

theorem RawBatch.Formed.length_serializeBatch (formed : batch.Formed) :
    (serializeBatch batch).length = 4 + 33 * rank (serializeBatch batch) 30 := by
  rw [← formed.length_upto le_rfl, serializeBatch, length_append, length_bitmapOf]

theorem RawBatch.Formed.slice_serializeBatch (formed : batch.Formed) (low : 1 ≤ i) (high : i ≤ 30)
    (used : batch i ≠ []) :
    slice (serializeBatch batch) (4 + 33 * rank (serializeBatch batch) (i - 1)) 33 = batch i := by
  obtain ⟨i, rfl⟩ := Nat.exists_eq_add_of_le' low
  have full : (batch (i + 1)).length = 33 := (formed.slot _ low high).resolve_left used
  obtain ⟨back, split⟩ := flatten_slots (fun k => batch (k + 1)) (show i < 30 by omega)
  rw [Nat.add_sub_cancel, ← formed.length_upto (by omega)]
  conv_lhs => arg 1; rw [serializeBatch, split, ← append_assoc]
  conv_lhs => arg 3; rw [← full]
  rw [← length_bitmapOf (fun i => if i = 31 then batch 0 == [1] else
    decide (i < 30) && batch (i + 1) != []), ← length_append]
  exact slice_append

theorem RawBatch.Formed.parseBatch_serializeBatch (formed : batch.Formed) :
    parseBatch (serializeBatch batch) = .ok batch := by
  have length := formed.length_serializeBatch
  rcases formed.head with regular | ⟨shortcut, key, value, rest⟩
  · rw [parseBatch_of_regular (by rw [isSet_serializeBatch_31, regular]; rfl) (by omega) (by omega)]
    congr 1
    funext i
    split
    · rename_i first
      rw [first, regular]
    · rename_i later
      split
      · rename_i used
        obtain ⟨high, used⟩ := used
        rw [isSet_serializeBatch (by omega), Nat.sub_add_cancel (by omega), bne_iff_ne] at used
        exact formed.slice_serializeBatch (by omega) high used
      · rename_i unused
        by_cases high : i ≤ 30
        · rw [isSet_serializeBatch (by omega), Nat.sub_add_cancel (by omega), bne_iff_ne] at unused
          exact (not_not.mp fun used => unused ⟨high, used⟩).symm
        · exact (formed.beyond i (by omega)).symm
  · have keyUsed : batch 1 ≠ [] := fun empty => by rw [empty] at key; cases key
    have valueUsed : batch 2 ≠ [] := fun empty => by rw [empty] at value; cases value
    have first : rank (serializeBatch batch) 1 = 1 := by
      rw [rank_serializeBatch (by norm_num)]
      simp [range_succ, keyUsed]
    have both : rank (serializeBatch batch) 2 = 2 := by
      rw [rank_serializeBatch (by norm_num)]
      simp [range_succ, keyUsed, valueUsed]
    have more := rank_mono (serializeBatch batch) (show 2 ≤ 30 by norm_num)
    rw [parseBatch_of_shortcut (by rw [isSet_serializeBatch_31, shortcut]; rfl) (by omega)]
    congr 1
    funext i
    split
    · rename_i zero
      rw [zero, shortcut]
    · split
      · rename_i slot
        rcases slot with rfl | rfl
        · exact formed.slice_serializeBatch le_rfl (by norm_num) keyUsed
        · have stored :=
            formed.slice_serializeBatch (show 1 ≤ 2 by norm_num) (by norm_num) valueUsed
          rwa [show 2 - 1 = 1 from rfl, first] at stored
      · exact (rest i (by omega)).symm

end

end AliceNet.BadgerTrie
