import AliceNet.BadgerTrie.Codec

/-! Fast sync of a committed trie: every stored node passes the check of `StoreSnapShotNode`. -/

namespace AliceNet.BadgerTrie

open SparseTrie MerkleTrie Outcome List

/-- No node is kept above two empty subtrees. -/
def Full : Tree → Prop
  | .node l r => (l ≠ .empty ∨ r ≠ .empty) ∧ Full l ∧ Full r
  | _ => True

/-- The subtrees `levels` levels down. -/
def frontier : (levels : ℕ) → Tree → List Tree
  | _, .empty => []
  | 0, t => [t]
  | _ + 1, .leaf _ _ => []
  | levels + 1, .node l r => frontier levels l ++ frontier levels r

/-- The entries that stand less than `levels` levels down. -/
def shallow : (levels : ℕ) → Tree → List (Bytes32 × Bytes32)
  | 0, _ => []
  | _ + 1, .empty => []
  | _ + 1, .leaf key value => [(key, value)]
  | levels + 1, .node l r => shallow levels l ++ shallow levels r

def LeafNode.of (entry : Bytes32 × Bytes32) : LeafNode :=
  ⟨entry.1.toBytes, entry.2.toBytes⟩

theorem full_of_canonical (canonical : Canonical bitIsSet height depth t) : Full t := by
  induction canonical with
  | empty | leaf => trivial
  | node _ _ _ _ shared left right =>
    refine ⟨?_, left, right⟩
    by_contra both
    simp only [not_or, not_not] at both
    rw [both.1, both.2] at shared
    simp at shared

theorem frontier_empty (levels : ℕ) : frontier levels .empty = [] := by cases levels <;> rfl

private theorem shallow_empty (levels : ℕ) : shallow levels .empty = [] := by cases levels <;> rfl

theorem entries_perm (levels : ℕ) (t : Tree) :
    t.entries.Perm (shallow levels t ++ (frontier levels t).flatMap Trie.entries) := by
  induction levels generalizing t with
  | zero => cases t <;> simp [shallow, frontier, Trie.entries]
  | succ levels ih =>
    cases t with
    | empty | leaf => simp [shallow, frontier, Trie.entries]
    | node l r =>
      simp only [Trie.entries, shallow, frontier, flatMap_append]
      refine ((ih l).append (ih r)).trans ?_
      simp only [append_assoc]
      refine Perm.append_left _ ?_
      rw [← append_assoc, ← append_assoc]
      exact perm_append_comm.append_right _

section

variable {hash : Bytes → Bytes32} {batch : Batch}

theorem raw_none (later : i ≠ 0) (unused : batch.slots i = none) : batch.raw i = [] := by
  simp [Batch.raw, later, unused]

private theorem raw_beyond (beyond : 30 < i) : batch.raw i = [] := by
  rw [Batch.raw, if_neg (by omega), if_neg (by omega)]

section

variable (later : i ≠ 0) (within : i ≤ 30)

include later within

section

variable (used : batch.slots i = some ⟨word, some flag⟩)

include used

theorem raw_some : batch.raw i = word.toBytes ++ [flag.byte] := by
  simp [Batch.raw, later, within, used, Node.bytes]

theorem wordAt_raw : wordAt batch.raw i = .ok word.toBytes := by
  simp [wordAt, raw_some later within used, require, bind, Except.bind, pure, Except.pure]

private theorem flagAt_raw : flagAt batch.raw i = .ok flag.byte := by
  simp [flagAt, raw_some later within used, pure, Except.pure]

private theorem lastAt_raw : lastAt batch.raw i = .ok flag.byte := by
  simp [lastAt, raw_some later within used, pure, Except.pure]

end

section

variable (slot : batch.slots i = ref hash n t)

include slot

theorem raw_ref : batch.raw i = [] ↔ t = .empty := by
  cases t with
  | empty => simp [raw_none later slot]
  | leaf | node => simp [raw_some later within slot]

theorem wordAt_ref (nonempty : t ≠ .empty) :
    wordAt batch.raw i = .ok ((scheme hash).digest n t).toBytes := by
  cases t with
  | empty => exact absurd rfl nonempty
  | leaf | node => exact wordAt_raw later within slot

private theorem flagAt_ref (nonempty : t ≠ .empty) :
    flagAt batch.raw i = .ok (if isLeaf t then 1 else 0) := by
  cases t with
  | empty => exact absurd rfl nonempty
  | leaf | node => exact flagAt_raw later within slot

private theorem lastAt_ref (nonempty : t ≠ .empty) :
    lastAt batch.raw i = .ok (if isLeaf t then 1 else 0) := by
  cases t with
  | empty => exact absurd rfl nonempty
  | leaf | node => exact lastAt_raw later within slot

end

end

/-- Slot `i` has `deep` levels of the batch below it. -/
def Spot (deep i : ℕ) : Prop :=
  16 ≤ (i + 1) * 2 ^ deep ∧ (i + 1) * 2 ^ deep < 32

theorem Spot.left (spot : Spot (deep + 1) i) : Spot deep (2 * i + 1) := by
  obtain ⟨low, high⟩ := spot
  have same : (2 * i + 1 + 1) * 2 ^ deep = (i + 1) * 2 ^ (deep + 1) := by ring
  exact ⟨same ▸ low, same ▸ high⟩

theorem Spot.right (spot : Spot (deep + 1) i) : Spot deep (2 * i + 2) := by
  obtain ⟨low, high⟩ := spot
  have few : deep < 4 := by
    by_contra many
    have large : 2 ^ 5 ≤ 2 ^ (deep + 1) := Nat.pow_le_pow_right (by norm_num) (by omega)
    nlinarith
  unfold Spot
  interval_cases deep <;> omega

theorem Spot.inner (spot : Spot (deep + 1) i) : i ≤ 14 := by
  obtain ⟨_, high⟩ := spot
  have := Nat.one_le_two_pow (n := deep)
  rw [pow_succ] at high
  nlinarith

theorem Spot.bottom (spot : Spot 0 i) : 15 ≤ i := by
  obtain ⟨low, _⟩ := spot
  omega

theorem visit_raw (within : InBatch hash deep batch.slots i n t) (spot : Spot deep i)
    (full : Full t) :
    visit batch.raw absent below i = if deep ≠ 0 ∧ t ≠ .empty then below i else pure absent := by
  unfold visit
  congr 1
  rw [hasChildren]
  cases deep with
  | zero =>
    have bottom := spot.bottom
    simp
    omega
  | succ deep =>
    have inner := spot.inner
    have bounds : 2 * i + 1 < 32 ∧ 2 * i + 2 < 32 := by omega
    cases t with
    | empty =>
      obtain ⟨left, right, _⟩ := within
      simp [raw_none (Nat.succ_ne_zero _) left, raw_none (Nat.succ_ne_zero _) right]
    | leaf key value =>
      obtain ⟨left, _⟩ := within
      simp [bounds, raw_some (Nat.succ_ne_zero _) (by omega) left]
    | node l r =>
      obtain ⟨left, right, _⟩ := within
      have leftUsed := raw_ref (Nat.succ_ne_zero _) (by omega) left
      have rightUsed := raw_ref (Nat.succ_ne_zero _) (by omega) right
      simp [bounds, leftUsed, rightUsed, full.1]

private theorem heightByte_natCast (n : ℕ) : heightByte n = UInt8.ofNat n :=
  UInt8.ofNat_mod_size

theorem leafNodeHash_node (left : batch.slots (2 * i + 1) = ref hash n l)
    (right : batch.slots (2 * i + 2) = ref hash n r) (inner : i ≤ 14)
    (full : l ≠ .empty ∨ r ≠ .empty) (height : ℤ) :
    leafNodeHash hash batch.raw i 0 height =
      .ok (some ((scheme hash).digest (n + 1) (.node l r))) := by
  have leftUsed := raw_ref (Nat.succ_ne_zero _) (by omega) left
  have rightUsed := raw_ref (Nat.succ_ne_zero _) (by omega) right
  have leftWord := wordAt_ref (Nat.succ_ne_zero _) (by omega) left
  have rightWord := wordAt_ref (Nat.succ_ne_zero _) (by omega) right
  have digest : (scheme hash).digest (n + 1) (.node l r) =
      hash (((scheme hash).digest n l).toBytes ++ ((scheme hash).digest n r).toBytes) := rfl
  have default : (scheme hash).digest n .empty = DefaultLeaf hash := rfl
  unfold leafNodeHash
  rw [if_neg (by simp), digest]
  by_cases leftEmpty : l = .empty
  · have rightFull : r ≠ .empty := full.resolve_left fun nonempty => nonempty leftEmpty
    rw [if_neg (by simp [leftUsed, leftEmpty]), if_pos (by simp [rightUsed, rightFull]),
      rightWord rightFull, leftEmpty, default]
    rfl
  · by_cases rightEmpty : r = .empty
    · rw [if_neg (by simp [rightUsed, rightEmpty]), if_neg (by simp [rightUsed, rightEmpty]),
        if_pos (by simp [leftUsed, leftEmpty]), leftWord leftEmpty, rightEmpty, default]
      rfl
    · rw [if_pos (by simp [leftUsed, rightUsed, leftEmpty, rightEmpty]), hashWords,
        leftWord leftEmpty,
        rightWord rightEmpty]
      simp [bind, Except.bind, pure, Except.pure, Functor.map, Except.map]

theorem hashWords_leaf (hash : Bytes → Bytes32)
    (left : batch.slots (2 * i + 1) = some ⟨key, some .data⟩)
    (right : batch.slots (2 * i + 2) = some ⟨value, some .data⟩) (inner : i ≤ 14) (n : ℕ) :
    hashWords hash batch.raw (2 * i + 1) (2 * i + 2) [heightByte n] =
      .ok ((scheme hash).digest n (.leaf key value)) := by
  rw [hashWords, wordAt_raw (Nat.succ_ne_zero _) (by omega) left,
    wordAt_raw (Nat.succ_ne_zero _) (by omega) right, heightByte_natCast]
  simp [bind, Except.bind, pure, Except.pure, Scheme.digest, Scheme.input, scheme, leafInput]

/-- What a recursion hands up for a child with `deep` levels below it. -/
def childHash (hash : Bytes → Bytes32) (deep n : ℕ) (t : Tree) : Option Bytes32 :=
  if deep ≠ 0 ∧ t ≠ .empty then some ((scheme hash).digest n t) else none

private theorem childHash_eq_none : childHash hash deep n t = none ↔ deep = 0 ∨ t = .empty := by
  simp [childHash]
  tauto

theorem innerHash_childHash (inside : deep ≠ 0) (n : ℕ) (l r : Tree) :
    innerHash hash (childHash hash deep n l) (childHash hash deep n r) =
      (scheme hash).digest (n + 1) (.node l r) := by
  have held : ∀ t : Tree, (childHash hash deep n t).getD (DefaultLeaf hash) =
      (scheme hash).digest n t := by
    intro t
    by_cases empty : t = .empty
    · subst empty
      simp [childHash]
      rfl
    · simp [childHash, inside, empty]
  rw [innerHash, held, held]
  rfl

structure Kept (hash : Bytes → Bytes32) (batch : Batch) (i n : ℕ) (t : Tree) : Prop where
  slot : i ≠ 0 → batch.slots i = ref hash n t
  top : i = 0 → batch.shortcut = isLeaf t

theorem Kept.lastAt (kept : Kept hash batch i n t) (inner : i ≤ 14) (nonempty : t ≠ .empty) :
    lastAt batch.raw i = .ok (if isLeaf t then 1 else 0) := by
  by_cases first : i = 0
  · subst first
    rw [← kept.top rfl]
    rfl
  · exact lastAt_ref first (by omega) (kept.slot first) nonempty

structure Standing (hash : Bytes → Bytes32) (batch : Batch) (deep i n : ℕ) (t : Tree) : Prop where
  kept : Kept hash batch i n t
  within : InBatch hash deep batch.slots i n t
  spot : Spot deep i
  full : Full t

theorem Standing.left (placed : Standing hash batch (deep + 1) i (n + 1) (.node l r)) :
    Standing hash batch deep (2 * i + 1) n l :=
  ⟨⟨fun _ => placed.within.1, nofun⟩, placed.within.2.2.1, placed.spot.left, placed.full.2.1⟩

theorem Standing.right (placed : Standing hash batch (deep + 1) i (n + 1) (.node l r)) :
    Standing hash batch deep (2 * i + 2) n r :=
  ⟨⟨fun _ => placed.within.2.1, nofun⟩, placed.within.2.2.2, placed.spot.right, placed.full.2.2⟩

theorem Standing.visit (placed : Standing hash batch deep i n t) :
    visit batch.raw absent below i = if deep ≠ 0 ∧ t ≠ .empty then below i else .ok absent :=
  visit_raw placed.within placed.spot placed.full

theorem visit_leaf (within : InBatch hash (deep + 1) batch.slots i n (.leaf key value))
    (spot : Spot (deep + 1) i) :
    visit batch.raw absent below (2 * i + 1) = .ok absent ∧
      visit batch.raw absent below (2 * i + 2) = .ok absent := by
  rw [visit_raw within.2.2.1 spot.left trivial, visit_raw within.2.2.2 spot.right trivial]
  simp [pure, Except.pure]

theorem childHash_none_iff (full : l ≠ .empty ∨ r ≠ .empty) :
    childHash hash deep n l = none ∧ childHash hash deep n r = none ↔ deep = 0 := by
  rw [childHash_eq_none, childHash_eq_none]
  tauto

def words (hash : Bytes → Bytes32) (n : ℕ) (subtrees : List Tree) : List Bytes :=
  subtrees.map fun t => ((scheme hash).digest n t).toBytes

private theorem childWords_raw (left : batch.slots (2 * i + 1) = ref hash n l)
    (right : batch.slots (2 * i + 2) = ref hash n r) (inner : i ≤ 14) :
    childWords batch.raw i = .ok (words hash n (frontier 0 l ++ frontier 0 r)) := by
  have leftUsed := raw_ref (Nat.succ_ne_zero _) (by omega) left
  have rightUsed := raw_ref (Nat.succ_ne_zero _) (by omega) right
  have leftWord := wordAt_ref (Nat.succ_ne_zero _) (by omega) left
  have rightWord := wordAt_ref (Nat.succ_ne_zero _) (by omega) right
  have single : ∀ t : Tree, t ≠ .empty → frontier 0 t = [t] := by
    intro t nonempty
    cases t with
    | empty => exact absurd rfl nonempty
    | leaf | node => rfl
  unfold childWords
  by_cases leftEmpty : l = .empty <;> by_cases rightEmpty : r = .empty <;>
    simp [leftUsed, rightUsed, leftEmpty, rightEmpty, leftWord, rightWord, frontier_empty, single,
      words, bind, Except.bind, pure, Except.pure]

section

variable (placed : Standing hash batch deep i (m + deep) t)

include placed

private theorem verifyNode_raw (nonempty : t ≠ .empty) (inside : deep ≠ 0)
    (node : i = 0 → isLeaf t = false) (top : i = 0 → root = (scheme hash).digest (m + deep) t) :
    verifyNode hash batch.raw m root deep i = .ok (some ((scheme hash).digest (m + deep) t),
      true) := by
  induction deep generalizing i t with
  | zero => exact absurd rfl inside
  | succ deep ih =>
    obtain ⟨kept, within, spot, full⟩ := placed
    have inner := spot.inner
    have held : heldWord batch.raw i root =
        .ok ((scheme hash).digest (m + (deep + 1)) t).toBytes := by
      unfold heldWord
      by_cases first : i = 0
      · rw [if_pos first, top first]
        rfl
      · rw [if_neg first]
        exact wordAt_ref first (by omega) (kept.slot first) nonempty
    suffices hashed : ∃ lres rres,
        visit batch.raw (none, true) (verifyNode hash batch.raw m root deep) (2 * i + 1) =
        .ok (lres, true) ∧ visit batch.raw (none, true) (verifyNode hash batch.raw m root deep)
          (2 * i + 2) =
        .ok (rres, true) ∧ nodeHash hash batch.raw i lres rres ((m : ℤ) + (deep + 1 : ℕ)) =
        .ok (some ((scheme hash).digest (m + (deep + 1)) t)) by
      obtain ⟨lres, rres, left, right, hashed⟩ := hashed
      simp only [verifyNode, left, right, bind, Except.bind, Bool.not_true, Bool.false_eq_true,
        if_false, hashed, held]
      simp [pure, Except.pure]
    cases t with
    | empty => exact absurd rfl nonempty
    | leaf key value =>
      obtain ⟨left, right⟩ := visit_leaf within spot
      refine ⟨none, none, left, right, ?_⟩
      have later : i ≠ 0 := fun first => by simpa [isLeaf] using node first
      have flag := flagAt_ref later (by omega) (kept.slot later) nonempty
      have word := hashWords_leaf hash within.1 within.2.1 inner (m + (deep + 1))
      push_cast at word
      simp [nodeHash, flag, isLeaf, leafNodeHash, bind, Except.bind, (by omega : i < 15), word,
        Functor.map, Except.map]
    | node l r =>
      have placed : Standing hash batch (deep + 1) i (m + deep + 1) (.node l r) :=
        ⟨kept, within, spot, full⟩
      have visited : ∀ {j : ℕ} {child : Tree}, j ≠ 0 → Standing hash batch deep j (m + deep) child →
          visit batch.raw (none, true) (verifyNode hash batch.raw m root deep) j =
            .ok (childHash hash deep (m + deep) child, true) := by
        intro j child later placed
        rw [placed.visit, childHash]
        split
        · rename_i down
          exact ih placed down.2 down.1 (absurd · later) (absurd · later)
        · rfl
      refine ⟨_, _, visited (Nat.succ_ne_zero _) placed.left,
        visited (Nat.succ_ne_zero _) placed.right, ?_⟩
      rw [nodeHash]
      by_cases bottom : deep = 0
      · subst bottom
        have notFirst : i ≠ 0 := by
          obtain ⟨low, _⟩ := spot
          omega
        rw [if_pos ((childHash_none_iff full.1).mpr rfl),
          flagAt_ref notFirst (by omega) (kept.slot notFirst) nonempty]
        exact leafNodeHash_node within.1 within.2.1 inner full.1 (m + (0 + 1 : ℕ))
      · rw [if_neg (mt (childHash_none_iff full.1).mp bottom), innerHash_childHash bottom]
        rfl

private theorem getInteriorNodesNext_raw (nonempty : t ≠ .empty)
    (inside : deep ≠ 0) :
    getInteriorNodesNext hash batch.raw m deep i =
      .ok (words hash m (frontier deep t), some ((scheme hash).digest (m + deep) t)) := by
  induction deep generalizing i t with
  | zero => exact absurd rfl inside
  | succ deep ih =>
    obtain ⟨kept, within, spot, full⟩ := placed
    have inner := spot.inner
    have last := kept.lastAt inner nonempty
    suffices parts : ∃ left lres right rres here, visit batch.raw ([], none)
        (getInteriorNodesNext hash batch.raw m deep) (2 * i + 1) = .ok (left, lres) ∧
        visit batch.raw ([], none) (getInteriorNodesNext hash batch.raw m deep) (2 * i + 2) =
          .ok (right, rres) ∧
        interiorNodes hash batch.raw i lres rres ((m : ℤ) + (deep + 1 : ℕ)) =
          .ok (here, some ((scheme hash).digest (m + (deep + 1)) t)) ∧
        left ++ right ++ here = words hash m (frontier (deep + 1) t) by
      obtain ⟨left, lres, right, rres, here, leftVisit, rightVisit, found, all⟩ := parts
      simp only [getInteriorNodesNext, leftVisit, rightVisit, bind, Except.bind, found, all]
      rfl
    cases t with
    | empty => exact absurd rfl nonempty
    | leaf key value =>
      obtain ⟨left, right⟩ := visit_leaf within spot
      refine ⟨[], none, [], none, [], left, right, ?_, rfl⟩
      have word := hashWords_leaf hash within.1 within.2.1 inner (m + (deep + 1))
      push_cast at word
      simp [interiorNodes, last, isLeaf, leafNodeHash, bind, Except.bind, (by omega : i < 15), word,
        Functor.map, Except.map, pure, Except.pure]
    | node l r =>
      have placed : Standing hash batch (deep + 1) i (m + deep + 1) (.node l r) :=
        ⟨kept, within, spot, full⟩
      have visited : ∀ {j : ℕ} {child : Tree}, Standing hash batch deep j (m + deep) child →
          visit batch.raw ([], none) (getInteriorNodesNext hash batch.raw m deep) j =
            .ok (if deep ≠ 0 then words hash m (frontier deep child) else [],
              childHash hash deep (m + deep) child) := by
        intro j child placed
        rw [placed.visit, childHash]
        by_cases bottom : deep = 0
        · simp [bottom]
        · by_cases empty : child = .empty
          · simp [empty, frontier_empty, words]
          · rw [if_pos ⟨bottom, empty⟩, if_pos bottom, if_pos ⟨bottom, empty⟩]
            exact ih placed empty bottom
      refine ⟨_, _, _, _, if deep ≠ 0 then [] else words hash m (frontier 1 (.node l r)),
        visited placed.left, visited placed.right, ?_, ?_⟩
      · rw [interiorNodes]
        by_cases bottom : deep = 0
        · subst bottom
          have hashed := leafNodeHash_node within.1 within.2.1 inner full.1 (m + (0 + 1 : ℕ))
          have below := childWords_raw within.1 within.2.1 inner
          rw [if_pos ((childHash_none_iff full.1).mpr rfl), last]
          simp only [isLeaf, Bool.false_eq_true, if_false, bind, Except.bind, hashed, below]
          rfl
        · rw [if_neg (mt (childHash_none_iff full.1).mp bottom), innerHash_childHash bottom,
            if_pos bottom]
          rfl
      · by_cases bottom : deep = 0
        · subst bottom
          rfl
        · simp [bottom, words, frontier]

private theorem getFinalLeafNodes_raw (nonempty : t ≠ .empty) :
    getFinalLeafNodes batch.raw deep i = .ok ((shallow deep t).map LeafNode.of) := by
  induction deep generalizing i t with
  | zero => rfl
  | succ deep ih =>
    have within := placed.within
    have inner := placed.spot.inner
    have last := placed.kept.lastAt inner nonempty
    cases t with
    | empty => exact absurd rfl nonempty
    | leaf key value =>
      have keyWord := wordAt_raw (Nat.succ_ne_zero _) (by omega) within.1
      have valueWord := wordAt_raw (Nat.succ_ne_zero _) (by omega) within.2.1
      simp [getFinalLeafNodes, last, isLeaf, bind, Except.bind, (by omega : i < 15), keyWord,
        valueWord, shallow, LeafNode.of, pure, Except.pure]
    | node l r =>
      have visited : ∀ {j : ℕ} {child : Tree}, Standing hash batch deep j (m + deep) child →
          visit batch.raw [] (getFinalLeafNodes batch.raw deep) j =
              .ok ((shallow deep child).map LeafNode.of) := by
        intro j child placed
        rw [placed.visit]
        split
        · rename_i down
          exact ih placed down.2
        · rename_i nothing
          have none : shallow deep child = [] := by
            rcases not_and_or.mp nothing with bottom | empty
            · rw [not_not.mp bottom, shallow]
            · rw [not_not.mp empty, shallow_empty]
          rw [none, map_nil]
      have left := visited placed.left
      have right := visited placed.right
      simp [getFinalLeafNodes, last, isLeaf, bind, Except.bind, left, right, shallow, pure,
        Except.pure]

end

theorem InBatch.slot (within : InBatch hash deep slots i n t) (below : k < deep)
    (level : (j + 1) / 2 ^ (k + 1) = i + 1) :
    (t = .empty → slots j = none) ∧ (slots j = none ∨ ∃ word flag,
      slots j = some ⟨word, some flag⟩) := by
  have refSlot : ∀ t n, ref hash n t = none ∨ ∃ word flag,
      ref hash n t = some ⟨word, some flag⟩ := by
    intro t n
    cases t with
    | empty => exact .inl rfl
    | leaf | node => exact .inr ⟨_, _, rfl⟩
  induction deep generalizing i n t k with
  | zero => omega
  | succ deep ih =>
    cases k with
    | zero =>
      have child : j = 2 * i + 1 ∨ j = 2 * i + 2 := by omega
      cases t with
      | empty | leaf => rcases child with rfl | rfl <;> simp [within.1, within.2.1]
      | node l r =>
        refine ⟨nofun, ?_⟩
        rcases child with rfl | rfl
        · exact within.1 ▸ refSlot l _
        · exact within.2.1 ▸ refSlot r _
    | succ k =>
      have parent : (j + 1) / 2 ^ (k + 1) / 2 = i + 1 := by
        rw [Nat.div_div_eq_div_mul, ← pow_succ]
        exact level
      have child : (j + 1) / 2 ^ (k + 1) = 2 * i + 1 + 1 ∨ (j + 1) / 2 ^ (k + 1) = 2 * i + 2 +
        1 := by omega
      cases t with
      | empty =>
        rcases child with left | right
        · exact ih within.2.2.1 (by omega) left
        · exact ih within.2.2.2 (by omega) right
      | leaf | node =>
        refine ⟨nofun, ?_⟩
        rcases child with left | right
        · exact (ih within.2.2.1 (by omega) left).2
        · exact (ih within.2.2.2 (by omega) right).2

private theorem exists_level (low : 1 ≤ j) (high : j ≤ 30) :
    ∃ k < 4, (j + 1) / 2 ^ (k + 1) = 0 + 1 := by
  have every : ∀ j < 31, 1 ≤ j → ∃ k < 4, (j + 1) / 2 ^ (k + 1) = 0 + 1 := by decide
  exact every j (by omega) low

theorem Encodes.formed (encodes : Encodes hash batch n t) : batch.raw.Formed where
  slot := fun i low high => by
    obtain ⟨k, below, level⟩ := exists_level low high
    rcases (encodes.2.slot below level).2 with unused | ⟨word, flag, used⟩
    · exact .inl (raw_none (by omega) unused)
    · refine .inr ?_
      rw [raw_some (by omega) high used]
      simp
  beyond := fun _ beyond => raw_beyond beyond
  head := by
    obtain ⟨shortcut, within⟩ := encodes
    cases t with
    | empty | node =>
      refine .inl ?_
      simp [Batch.raw, shortcut, isLeaf]
    | leaf key value =>
      refine .inr ⟨by simp [Batch.raw, shortcut, isLeaf], ?_, ?_, fun i later => ?_⟩
      · rw [raw_some (by norm_num) (by norm_num) within.1]
        simp
      · rw [raw_some (by norm_num) (by norm_num) within.2.1]
        simp
      · by_cases high : i ≤ 30
        · refine raw_none (by omega) ?_
          have every : ∀ i < 31, 3 ≤ i → ∃ k < 3, (i + 1) / 2 ^ (k + 1) = 1 + 1 ∨
              (i + 1) / 2 ^ (k + 1) = 2 + 1 := by
            decide
          obtain ⟨k, below, left | right⟩ := every i (by omega) later
          · exact (within.2.2.1.slot below left).1 rfl
          · exact (within.2.2.2.slot below right).1 rfl
        · exact raw_beyond (by omega)

theorem Standing.first (shortcut : batch.shortcut = isLeaf t)
    (within : InBatch hash 4 batch.slots 0 n t) (full : Full t) : Standing hash batch 4 0 n t :=
  ⟨⟨fun later => absurd rfl later, fun _ => shortcut⟩, within, by simp [Spot], full⟩

theorem node_height (fits : Fits n (.node l r)) (height : n + 4 * layer = 256) :
    ∃ m, n = m + 4 := by
  have pos : 0 < n := by
    cases fits with
    | node => exact Nat.succ_pos _
  exact ⟨n - 4, by omega⟩

section

variable (encodes : Encodes hash batch n t) (fits : Fits n t) (full : Full t) (nonempty : t ≠
  .empty) {layer : ℕ} (height : n + 4 * layer = 256)

include encodes fits full nonempty height

private theorem verifyBatchEasy_raw :
    verifyBatchEasy hash batch.raw ((scheme hash).digest n t) layer =
      .ok (some ((scheme hash).digest n t), true) := by
  have formed := encodes.formed
  obtain ⟨shortcut, within⟩ := encodes
  unfold verifyBatchEasy
  cases t with
  | empty => exact absurd rfl nonempty
  | leaf key value =>
    have marked : batch.raw 0 = [1] := by simp [Batch.raw, shortcut, isLeaf]
    have clean : ¬ ∃ i < 31, 3 ≤ i ∧ batch.raw i ≠ [] := by
      rintro ⟨i, _, later, used⟩
      rcases formed.head with regular | ⟨_, _, _, rest⟩
      · rw [marked] at regular
        cases regular
      · exact used (rest i later)
    have hashed := hashWords_leaf hash within.1 within.2.1 (by norm_num) n
    have byte : (256 - 4 * (layer : ℤ) + (1 : ℕ) - 1) = n := by omega
    rw [if_pos (by rw [marked]; decide), verifyBatch, if_pos (by rw [marked]; decide), if_neg clean,
      byte, hashed]
    simp [bind, Except.bind, pure, Except.pure]
  | node l r =>
    have regular : batch.raw 0 = [0] := by simp [Batch.raw, shortcut, isLeaf]
    obtain ⟨m, rfl⟩ := node_height fits height
    have base : (256 - 4 * ((layer : ℤ) + 1)) = m := by omega
    rw [if_neg (by rw [regular]; simp), verifyBatch, if_neg (by rw [regular]; simp), base]
    exact verifyNode_raw (.first shortcut within full) nonempty (by norm_num) (fun _ =>
      rfl) fun _ => rfl

private theorem getInteriorNodesEasy_raw :
    getInteriorNodesEasy hash batch.raw layer = .ok (words hash (n - 4) (frontier 4 t)) := by
  obtain ⟨shortcut, within⟩ := encodes
  unfold getInteriorNodesEasy
  cases t with
  | empty => exact absurd rfl nonempty
  | leaf key value =>
    rw [if_pos (by simp [Batch.raw, shortcut, isLeaf])]
    rfl
  | node l r =>
    obtain ⟨m, rfl⟩ := node_height fits height
    have base : (256 - 4 * ((layer : ℤ) + 1)) = m := by omega
    rw [if_neg (by simp [Batch.raw, shortcut, isLeaf]), base, getInteriorNodesNext_raw
      (.first shortcut within full) nonempty (by norm_num)]
    rfl

private theorem getFinalLeafNodes_top :
    getFinalLeafNodes batch.raw 4 0 = .ok ((shallow 4 t).map LeafNode.of) := by
  obtain ⟨shortcut, within⟩ := encodes
  cases t with
  | empty => exact absurd rfl nonempty
  | leaf key value =>
    -- a shortcut may stand at height zero, where no four levels are below it
    have anywhere : InBatch hash 4 batch.slots 0 (0 + 4) (.leaf key value) :=
      ⟨within.1, within.2.1, within.2.2.1.empty_height _, within.2.2.2.empty_height _⟩
    exact getFinalLeafNodes_raw (.first shortcut anywhere full) nonempty
  | node l r =>
    obtain ⟨m, rfl⟩ := node_height fits height
    exact getFinalLeafNodes_raw (.first shortcut within full) nonempty

theorem StoreSnapShotNode_raw (db : NodeDB) :
    StoreSnapShotNode hash db (serializeBatch batch.raw) ((scheme hash).digest n t) layer =
      .ok ⟨Function.update db ((scheme hash).digest n t) (some (serializeBatch batch.raw)),
        words hash (n - 4) (frontier 4 t), layer + 1, (shallow 4 t).map LeafNode.of⟩ := by
  have verified := verifyBatchEasy_raw encodes fits full nonempty height
  have below := getInteriorNodesEasy_raw encodes fits full nonempty height
  have leaves := getFinalLeafNodes_top encodes fits full nonempty height
  have stored : ∀ text, storeFastSync hash db batch.raw ((scheme hash).digest n t) layer text =
      .ok ⟨Function.update db ((scheme hash).digest n t) (some (serializeBatch batch.raw)),
        words hash (n - 4) (frontier 4 t), layer + 1, (shallow 4 t).map LeafNode.of⟩ := by
    intro text
    simp [storeFastSync, verified, below, leaves, bind, Except.bind, require, pure, Except.pure]
  rw [StoreSnapShotNode, encodes.formed.parseBatch_serializeBatch]
  split
  · rename_i first
    rw [← first]
    exact stored _
  · rename_i later
    rw [require, if_pos (by omega)]
    exact stored _

end

end

end AliceNet.BadgerTrie
