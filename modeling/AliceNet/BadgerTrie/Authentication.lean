import AliceNet.BadgerTrie.Correctness
import AliceNet.BadgerTrie.Sync

/-! What `verifyBatch` leaves open: most flag bytes, and words that are not hashed. -/

namespace AliceNet.BadgerTrie

open Outcome Function

variable {val bits : Bytes}

theorem length_slice (within : start + length ≤ val.length) :
    (slice val start length).length = length := by
  simp [slice]
  omega

theorem slice_set_outside (outside : pos < start ∨ start + length ≤ pos) (byte : UInt8) :
    slice (val.set pos byte) start length = slice val start length := by
  apply List.ext_getElem?
  intro i
  simp only [slice, List.getElem?_take, List.getElem?_drop]
  split
  · rw [List.getElem?_set_ne (by omega)]
  · rfl

theorem slice_set_inside (inside : offset < length) (byte : UInt8) :
    slice (val.set (start + offset) byte) start length = (slice val start length).set offset
      byte := by
  apply List.ext_getElem?
  intro i
  simp only [slice, List.getElem?_take, List.getElem?_drop, List.getElem?_set, List.length_take,
    List.length_drop]
  grind

theorem isSet_set_outside (outside : i / 8 ≠ pos) (byte : UInt8) :
    isSet (bits.set pos byte) i = isSet bits i := by
  simp [isSet, List.getD_eq_getElem?_getD, List.getElem?_set_ne outside.symm]

private theorem rank_set_outside (outside : 4 ≤ pos) (bound : i ≤ 32) (byte : UInt8) :
    rank (bits.set pos byte) i = rank bits i := by
  unfold rank
  congr 1
  refine List.filter_congr fun k mem => ?_
  have below := List.mem_range.mp mem
  exact isSet_set_outside (by omega) byte

theorem rank_succ (bits : Bytes) (i : ℕ) :
    rank bits (i + 1) = rank bits i + if isSet bits i then 1 else 0 := by
  unfold rank
  rw [List.range_succ, List.filter_append]
  by_cases set : isSet bits i <;> simp [set]

theorem rank_mono (bits : Bytes) (le : i ≤ j) : rank bits i ≤ rank bits j := by
  induction le with
  | refl => exact le_rfl
  | step _ ih =>
    rw [rank_succ]
    exact ih.trans (Nat.le_add_right _ _)

private theorem rank_lt (set : isSet bits i = true) (lt : i < j) : rank bits i < rank bits j := by
  have step : rank bits (i + 1) = rank bits i + 1 := by rw [rank_succ, if_pos set]
  have rest : rank bits (i + 1) ≤ rank bits j := rank_mono bits lt
  omega

def reflag (batch : RawBatch) (j : ℕ) (byte : UInt8) : RawBatch :=
  Function.update batch j ((batch j).set 32 byte)

section

variable {hash : Bytes → Bytes32} {batch : RawBatch} {j : ℕ} {byte : UInt8}

theorem reflag_eq_nil (i : ℕ) : reflag batch j byte i = [] ↔ batch i = [] := by
  by_cases same : i = j
  · subst same
    simp [reflag]
  · simp [reflag, same]

theorem wordAt_reflag (i : ℕ) : wordAt (reflag batch j byte) i = wordAt batch i := by
  by_cases same : i = j
  · subst same
    simp only [wordAt, reflag, update_self, List.length_set]
    rw [List.take_set_of_le (le_refl 32)]
  · simp [wordAt, reflag, same]

private theorem flagAt_reflag (other : i ≠ j) :
    flagAt (reflag batch j byte) i = flagAt batch i := by
  simp [flagAt, reflag, other]

private theorem hasChildren_reflag (i : ℕ) :
    hasChildren (reflag batch j byte) i = hasChildren batch i := by
  simp only [hasChildren, bne, beq_eq_decide, reflag_eq_nil]

private theorem leafNodeHash_reflag (idx : ℕ) (flag : UInt8) (height : ℤ) :
    leafNodeHash hash (reflag batch j byte) idx flag height =
      leafNodeHash hash batch idx flag height := by
  simp only [leafNodeHash, hashWords, wordAt_reflag, ne_eq, reflag_eq_nil]

private theorem verifyNode_reflag (childless : hasChildren batch j = false) (height : ℤ)
    (root : Bytes32) (n : ℕ) (other : idx ≠ j) :
    verifyNode hash (reflag batch j byte) height root n idx = verifyNode hash batch height root n
      idx := by
  induction n generalizing idx with
  | zero => rfl
  | succ n ih =>
    have visited : ∀ child, visit (reflag batch j byte) (none, true)
        (verifyNode hash (reflag batch j byte) height root n) child =
        visit batch (none, true) (verifyNode hash batch height root n) child := by
      intro child
      unfold visit
      rw [hasChildren_reflag]
      split
      · rename_i parent
        refine ih fun same => ?_
        rw [same, childless] at parent
        cases parent
      · rfl
    simp only [verifyNode, visited, nodeHash, heldWord, flagAt_reflag other, leafNodeHash_reflag,
      wordAt_reflag]

private theorem verifyNode_used (regular : batch 0 = [0]) (n : ℕ)
    (passed : verifyNode hash batch height root n 0 = .ok (res, true)) :
    ∃ i, 1 ≤ i ∧ i ≤ 30 ∧ batch i ≠ [] := by
  by_contra unused
  push Not at unused
  cases n with
  | zero => cases passed
  | succ n =>
    have childless : ∀ child, child ≤ 2 → hasChildren batch child = false := by
      intro child low
      simp [hasChildren, unused (2 * child + 1) (by omega) (by omega),
        unused (2 * child + 2) (by omega) (by omega)]
    simp only [verifyNode, visit, childless (2 * 0 + 1) (by omega),
      childless (2 * 0 + 2) (by omega), nodeHash, flagAt, regular] at passed
    cases passed

private theorem exists_last (used : ∃ i, 1 ≤ i ∧ i ≤ 30 ∧ batch i ≠ []) :
    ∃ j, 1 ≤ j ∧ j ≤ 30 ∧ batch j ≠ [] ∧ ∀ i, j < i → i ≤ 30 → batch i = [] := by
  obtain ⟨i, low, high, used⟩ := used
  have bounded : ∃ j ≤ 30, (1 ≤ j ∧ batch j ≠ []) ∧ ∀ k, j < k → k ≤ 30 → ¬(1 ≤ k ∧ batch k ≠ []) :=
    ⟨Nat.findGreatest (fun k => 1 ≤ k ∧ batch k ≠ []) 30, Nat.findGreatest_le 30,
      Nat.findGreatest_spec (P := fun k => 1 ≤ k ∧ batch k ≠ []) high ⟨low, used⟩,
      fun k above below => Nat.findGreatest_is_greatest above below⟩
  obtain ⟨j, high, ⟨low, used⟩, last⟩ := bounded
  refine ⟨j, low, high, used, fun k above below => ?_⟩
  by_contra nonempty
  exact last k above below ⟨by omega, nonempty⟩

/-- The byte string decodes to the batch, and the batch passes. -/
def Accepts (hash : Bytes → Bytes32) (root : Bytes32) (layer : ℤ) (val : Bytes) (batch : RawBatch) :
    Prop :=
  parseBatch val = .ok batch ∧ ∃ res, verifyBatchEasy hash batch root layer = .ok (res, true)

variable {val : Bytes}

theorem parseBatch_ok (parsed : parseBatch val = .ok batch) :
    4 ≤ val.length ∧ ((isSet val 31 = true ∧ 70 ≤ val.length ∧
      batch = fun i => if i = 0 then [1] else if i = 1 ∨ i = 2 then
        slice val (4 + 33 * (i - 1)) 33 else []) ∨
    (isSet val 31 = false ∧ 4 + 33 * rank val 30 ≤ val.length ∧
      batch = fun i => if i = 0 then [0]
        else if i ≤ 30 ∧ isSet val (i - 1) then slice val (4 + 33 * rank val (i - 1)) 33 else
          [])) := by
  unfold parseBatch at parsed
  simp only [ok_iff'] at parsed
  obtain ⟨_, long, parsed⟩ := parsed
  refine ⟨long, ?_⟩
  cases set : isSet val 31 with
  | true =>
    simp only [set, if_true, ok_iff'] at parsed
    exact .inl ⟨rfl, parsed.1, parsed.2.symm⟩
  | false =>
    simp only [set, Bool.false_eq_true, if_false, ok_iff'] at parsed
    exact .inr ⟨rfl, parsed.1, parsed.2.symm⟩

theorem parseBatch_of_shortcut (set : isSet val 31 = true) (long : 70 ≤ val.length) :
    parseBatch val = .ok fun i => if i = 0 then [1] else if i = 1 ∨ i = 2 then
      slice val (4 + 33 * (i - 1)) 33 else [] := by
  simp only [parseBatch, ok_iff', set, if_true, and_true]
  omega

theorem parseBatch_of_regular (unset : isSet val 31 = false) (short : 4 ≤ val.length)
    (long : 4 + 33 * rank val 30 ≤ val.length) :
    parseBatch val = .ok fun i => if i = 0 then [0]
      else if i ≤ 30 ∧ isSet val (i - 1) then slice val (4 + 33 * rank val (i - 1)) 33 else [] := by
  simp only [parseBatch, ok_iff', unset, Bool.false_eq_true, if_false, and_true]
  omega

private theorem parseBatch_reflag_shortcut (parsed : parseBatch val = .ok batch)
    (shortcut : isSet val 31 = true) (byte : UInt8) :
    parseBatch (val.set 36 byte) = .ok (reflag batch 1 byte) ∧ (batch 1).length = 33 := by
  obtain ⟨_, ⟨_, long, rfl⟩ | ⟨unset, _⟩⟩ := parseBatch_ok parsed
  · have slot : (slice val 4 33).length = 33 := length_slice (by omega)
    refine ⟨?_, slot⟩
    rw [parseBatch_of_shortcut (by rw [isSet_set_outside (by norm_num)]; exact shortcut)
      (by simpa using long)]
    congr 1
    funext i
    by_cases first : i = 1
    · subst first
      have inside : slice (val.set (4 + 32) byte) 4 33 = (slice val 4 33).set 32 byte :=
        slice_set_inside (by omega) byte
      simpa [reflag] using inside
    · simp only [reflag, update_of_ne first]
      split
      · rfl
      · split
        · exact slice_set_outside (by omega) byte
        · rfl
  · rw [shortcut] at unset
    cases unset

private theorem parseBatch_reflag_regular (parsed : parseBatch val = .ok batch)
    (regular : isSet val 31 = false) (low : 1 ≤ j) (high : j ≤ 30) (used : batch j ≠ [])
    (byte : UInt8) :
    (∃ val', parseBatch val' = .ok (reflag batch j byte)) ∧ (batch j).length = 33 := by
  obtain ⟨short, ⟨set, _⟩ | ⟨_, long, rfl⟩⟩ := parseBatch_ok parsed
  · rw [regular] at set
    cases set
  have notFirst : j ≠ 0 := by omega
  have set : isSet val (j - 1) = true := by
    by_contra unset
    simp [notFirst, unset] at used
  have below : rank val (j - 1) < rank val 30 := rank_lt set (by omega)
  refine ⟨⟨val.set (4 + 33 * rank val (j - 1) + 32) byte, ?_⟩, ?_⟩
  · have sameBits : ∀ i, i < 32 → isSet (val.set (4 + 33 * rank val (j - 1) + 32) byte) i =
        isSet val i :=
      fun i small => isSet_set_outside (by omega) byte
    have sameRank : ∀ i, i ≤ 32 → rank (val.set (4 + 33 * rank val (j - 1) + 32) byte) i =
        rank val i :=
      fun i small => rank_set_outside (by omega) small byte
    rw [parseBatch_of_regular (by rw [sameBits 31 (by omega)]; exact regular) (by simpa using short)
      (by rw [sameRank 30 (by omega)]; simpa using long)]
    congr 1
    funext i
    by_cases same : i = j
    · subst same
      simp only [reflag, update_self, notFirst, if_false, high, true_and, set, if_true,
        sameBits (i - 1) (by omega), sameRank (i - 1) (by omega)]
      exact slice_set_inside (by omega) byte
    · simp only [reflag, update_of_ne same]
      split
      · rfl
      · rename_i positive
        by_cases tall : i ≤ 30
        · rw [sameBits (i - 1) (by omega), sameRank (i - 1) (by omega)]
          split
          · rename_i here
            refine slice_set_outside ?_ byte
            rcases Nat.lt_or_gt_of_ne same with before | after
            · have := rank_lt here.2 (show i - 1 < j - 1 by omega)
              omega
            · have := rank_lt set (show j - 1 < i - 1 by omega)
              omega
          · rfl
        · simp [tall]
  · simp only [notFirst, if_false, high, true_and, set, if_true]
    exact length_slice (by omega)

private theorem reflag_ne (long : (batch j).length = 33) (other : (batch j)[32]? ≠ some byte) :
    reflag batch j byte ≠ batch := by
  intro same
  have slot := congrFun same j
  rw [reflag, update_self] at slot
  refine other ?_
  rw [← slot, List.getElem?_set_self (by omega)]

theorem Accepts.alternative (accepts : Accepts hash root layer val batch) :
    ∃ val' batch', Accepts hash root layer val' batch' ∧ batch' ≠ batch := by
  obtain ⟨parsed, res, passed⟩ := accepts
  have fresh : ∀ i, ∃ byte : UInt8, (batch i)[32]? ≠ some byte := by
    intro i
    cases held : (batch i)[32]? with
    | none => exact ⟨0, by simp⟩
    | some flag => exact ⟨flag + 1, by simp⟩
  obtain ⟨_, ⟨set, _, rfl⟩ | ⟨unset, _, shape⟩⟩ := parseBatch_ok parsed
  · obtain ⟨byte, other⟩ := fresh 1
    obtain ⟨parsed', long⟩ := parseBatch_reflag_shortcut parsed set byte
    refine ⟨_, _, ⟨parsed', res, ?_⟩, reflag_ne long other⟩
    rw [← passed]
    simp only [verifyBatchEasy, verifyBatch, hashWords, wordAt_reflag, ne_eq, reflag_eq_nil]
    simp [reflag]
  · have regular : batch 0 = [0] := by rw [shape]; rfl
    have verified : verifyNode hash batch (256 - 4 * (layer + 1)) root 4 0 = .ok (res, true) := by
      simpa [verifyBatchEasy, verifyBatch, regular] using passed
    obtain ⟨j, low, high, used, last⟩ := exists_last (verifyNode_used regular 4 verified)
    obtain ⟨byte, other⟩ := fresh j
    obtain ⟨⟨val', parsed'⟩, long⟩ := parseBatch_reflag_regular parsed unset low high used byte
    have childless : hasChildren batch j = false := by
      by_cases small : 2 * j + 2 < 32
      · simp [hasChildren, last (2 * j + 1) (by omega) (by omega),
          last (2 * j + 2) (by omega) (by omega)]
      · simp [hasChildren, small]
    refine ⟨val', _, ⟨parsed', res, ?_⟩, reflag_ne long other⟩
    have top : reflag batch j byte 0 = [0] := by
      rw [reflag, update_of_ne (by omega), regular]
    simp only [verifyBatchEasy, verifyBatch, top, ne_eq, not_true_eq_false, if_false]
    rw [verifyNode_reflag childless _ _ _ (by omega), verified]

/-- Two byte strings that pass against a root decode alike only if there is none that passes. -/
theorem accepted_unique_iff (root : Bytes32) (layer : ℤ) :
    (∀ val val' batch batch', Accepts hash root layer val batch →
      Accepts hash root layer val' batch' →
      batch = batch') ↔ ¬ ∃ val batch, Accepts hash root layer val batch := by
  constructor
  · rintro unique ⟨val, batch, accepts⟩
    obtain ⟨val', batch', accepts', different⟩ := accepts.alternative
    exact different (unique _ _ _ _ accepts' accepts)
  · intro none val val' batch batch' accepts _
    exact absurd ⟨val, batch, accepts⟩ none

end

def singleNode (flag : UInt8) : Bytes :=
  [0xC0, 0, 0, 1] ++ ((7 : Bytes32).toBytes ++ [flag]) ++ ((5 : Bytes32).toBytes ++ [2])

def singleRoot : Bytes32 := sampleHash (leafInput 7 5 256)

/-- What is stored for the root, if the node is accepted. -/
def storedFor (node : Bytes) : Except Error (Option Bytes) := do
  let synced ← StoreSnapShotNode sampleHash (fun _ => none) node singleRoot 0
  pure (synced.db singleRoot)

/-- A peer changes a flag byte of the root node of a trie, and the node is stored like that. -/
theorem forged_node_stored :
    (SMT.Update sampleHash SMT.new [⟨7, 5⟩]).map SMT.root = .ok (some singleRoot) ∧
    storedFor (singleNode 2) = .ok (some (singleNode 2)) ∧ storedFor (singleNode 0) =
      .ok (some (singleNode 0)) ∧
    singleNode 0 ≠ singleNode 2 := by
  decide +kernel

def twinWord : Bytes32 := sampleHash (nodeInput 3 4)

def twinNode (right : Bytes) : Bytes :=
  [if right = [] then 0xB0 else 0xF0, 0, 0, 0] ++ (twinWord.toBytes ++ [0]) ++ right ++
    ((3 : Bytes32).toBytes ++ [0]) ++ ((4 : Bytes32).toBytes ++ [0])

theorem word_unbound : ∀ right ∈ [[], (5 : Bytes32).toBytes ++ [0]],
    (do verifyBatchEasy sampleHash (← parseBatch (twinNode right)) (sampleHash (nodeInput twinWord
      (DefaultLeaf sampleHash))) 0).map Prod.snd = .ok true := by
  decide +kernel

end AliceNet.BadgerTrie
