import AliceNet.Library.MerkleTrie
import AliceNet.BadgerTrie.Smt

/-! How batches of slots represent an abstract trie, and what a lookup in them finds. -/

namespace AliceNet.BadgerTrie

open SparseTrie MerkleTrie

abbrev Tree := Trie Bytes32 Bytes32

/-- Slot `j` lies below slot `i` in the binary tree that a batch is. -/
def Below (i j : ℕ) : Prop :=
  ∃ k, (j + 1) / 2 ^ (k + 1) = i + 1

theorem below_left (i : ℕ) : Below i (2 * i + 1) :=
  ⟨0, by omega⟩

theorem below_right (i : ℕ) : Below i (2 * i + 2) :=
  ⟨0, by omega⟩

theorem Below.of_child (below : Below c j) (child : (c + 1) / 2 = i + 1) : Below i j := by
  obtain ⟨k, level⟩ := below
  exact ⟨k + 1, by rw [pow_succ, ← Nat.div_div_eq_div_mul, level, child]⟩

theorem Below.of_left (below : Below (2 * i + 1) j) : Below i j :=
  below.of_child (by omega)

theorem Below.of_right (below : Below (2 * i + 2) j) : Below i j :=
  below.of_child (by omega)

theorem Below.two_mul_lt (below : Below i j) : 2 * i < j := by
  obtain ⟨k, level⟩ := below
  have step : (j + 1) / 2 ^ (k + 1) ≤ (j + 1) / 2 :=
    Nat.div_le_div_left (by rw [pow_succ]; have := Nat.one_le_two_pow (n := k); omega) (by omega)
  omega

theorem Below.disjoint (left : Below (2 * i + 1) j) : ¬ Below (2 * i + 2) j := by
  rintro ⟨k', right⟩
  obtain ⟨k, left⟩ := left
  rcases Nat.lt_trichotomy k k' with lower | same | higher
  · obtain ⟨gap, rfl⟩ := Nat.exists_eq_add_of_lt lower
    have shrink := Nat.div_le_self ((j + 1) / 2 ^ (k + 1)) (2 ^ (gap + 1))
    rw [Nat.div_div_eq_div_mul, ← pow_add, (by omega : k + 1 + (gap + 1) = k + gap + 1 + 1),
      right] at shrink
    omega
  · subst same
    omega
  · obtain ⟨gap, rfl⟩ := Nat.exists_eq_add_of_lt higher
    have shrink : (j + 1) / 2 ^ (k' + 1) / 2 ^ (gap + 1) ≤ (j + 1) / 2 ^ (k' + 1) / 2 :=
      Nat.div_le_div_left (by rw [pow_succ]; have := Nat.one_le_two_pow (n := gap); omega)
        (by omega)
    rw [Nat.div_div_eq_div_mul, ← pow_add, (by omega : k' + 1 + (gap + 1) = k' + gap + 1 + 1), left,
      right] at shrink
    omega

section

variable (hash : Bytes → Bytes32)

/-- The way the trie hashes leaves, nodes and the empty subtree. -/
def scheme : Scheme Bytes32 Bytes32 Bytes32 Bytes where
  hash := hash
  leafInput := leafInput
  nodeInput := nodeInput
  emptyInput := [0]
  leaf_injective := fun same => by
    obtain ⟨keys, rest⟩ := Bytes32.append_injective same
    exact ⟨keys, (Bytes32.append_injective rest).1⟩
  node_injective := fun same => by
    obtain ⟨left, right⟩ := Bytes32.append_injective same
    exact ⟨left, Bytes32.toBytes_injective right⟩
  leaf_ne_node := fun same => by
    have lengths := congrArg List.length same
    simp [leafInput, nodeInput] at lengths
  leaf_ne_empty := fun same => by
    have lengths := congrArg List.length same
    simp [leafInput] at lengths
  node_ne_empty := fun same => by
    have lengths := congrArg List.length same
    simp [nodeInput] at lengths

/-- What a parent keeps of a subtree of height `n`. -/
def ref (n : ℕ) : Tree → Option Node
  | .empty => none
  | .leaf key value => some ⟨(scheme hash).digest n (.leaf key value), some .shortcut⟩
  | .node left right => some ⟨(scheme hash).digest n (.node left right), some .interior⟩

def InBatch : (levels : ℕ) → (slots : ℕ → Option Node) → (i n : ℕ) → Tree → Prop
  | 0, _, _, _, _ => True
  | levels + 1, slots, i, n, .empty =>
    slots (2 * i + 1) = none ∧ slots (2 * i + 2) = none ∧
      InBatch levels slots (2 * i + 1) (n - 1) .empty ∧
        InBatch levels slots (2 * i + 2) (n - 1) .empty
  | levels + 1, slots, i, n, .leaf key value =>
    slots (2 * i + 1) = some ⟨key, some .data⟩ ∧ slots (2 * i + 2) = some ⟨value, some .data⟩ ∧
      InBatch levels slots (2 * i + 1) (n - 1) .empty ∧
        InBatch levels slots (2 * i + 2) (n - 1) .empty
  | levels + 1, slots, i, n, .node left right =>
    slots (2 * i + 1) = ref hash (n - 1) left ∧ slots (2 * i + 2) = ref hash (n - 1) right ∧
      InBatch levels slots (2 * i + 1) (n - 1) left ∧ InBatch levels slots (2 * i + 2) (n - 1) right

def isLeaf : Tree → Bool
  | .leaf _ _ => true
  | _ => false

def Encodes (batch : Batch) (n : ℕ) (t : Tree) : Prop :=
  batch.shortcut = isLeaf t ∧ InBatch hash 4 batch.slots 0 n t

variable {hash}

theorem InBatch.congr (within : InBatch hash levels slots i n t)
    (same : ∀ j, Below i j → slots' j = slots j) : InBatch hash levels slots' i n t := by
  induction levels generalizing i n t with
  | zero => trivial
  | succ levels ih =>
    have left := same _ (below_left i)
    have right := same _ (below_right i)
    cases t with
    | empty | leaf key value | node l r =>
      obtain ⟨leftSlot, rightSlot, leftTree, rightTree⟩ := within
      exact ⟨left.trans leftSlot, right.trans rightSlot, ih leftTree fun j below =>
        same j below.of_left, ih rightTree fun j below => same j below.of_right⟩

theorem InBatch.default (levels i n : ℕ) : InBatch hash levels Batch.default.slots i n .empty := by
  induction levels generalizing i n with
  | zero => trivial
  | succ levels ih => exact ⟨rfl, rfl, ih _ _, ih _ _⟩

theorem InBatch.empty_height (within : InBatch hash levels slots i n .empty) (n' : ℕ) :
    InBatch hash levels slots i n' .empty := by
  induction levels generalizing i n n' with
  | zero => trivial
  | succ levels ih =>
    obtain ⟨leftSlot, rightSlot, leftTree, rightTree⟩ := within
    exact ⟨leftSlot, rightSlot, ih leftTree _, ih rightTree _⟩

private theorem ref_congr (same : (scheme hash).digest n t = (scheme hash).digest n' t) :
    ref hash n t = ref hash n' t := by
  cases t with
  | empty => rfl
  | leaf key value | node l r => simp [ref, same]

theorem InBatch.of_digest_eq (inj : Set.InjOn hash hashed) (fits : Fits n t) (fits' : Fits n' t)
    (inputs : (scheme hash).inputs n t ⊆ hashed) (inputs' : (scheme hash).inputs n' t ⊆ hashed)
    (same : (scheme hash).digest n t = (scheme hash).digest n' t)
    (within : InBatch hash levels slots i n t) : InBatch hash levels slots i n' t := by
  induction levels generalizing i n n' t with
  | zero => trivial
  | succ levels ih =>
    cases fits with
    | empty | leaf key value =>
      obtain ⟨leftSlot, rightSlot, leftTree, rightTree⟩ := within
      exact ⟨leftSlot, rightSlot, leftTree.empty_height _, rightTree.empty_height _⟩
    | node left right =>
      cases fits' with
      | node left' right' =>
        obtain ⟨leftSlot, rightSlot, leftTree, rightTree⟩ := within
        have binding : Set.InjOn (scheme hash).hash hashed := inj
        obtain ⟨sameLeft, sameRight⟩ := (scheme hash).node_injective
          (Scheme.input_eq_of_digest_eq binding inputs inputs' same)
        obtain ⟨_, inputsLeft, inputsRight⟩ := Scheme.inputs_node_subset.mp inputs
        obtain ⟨_, inputsLeft', inputsRight'⟩ := Scheme.inputs_node_subset.mp inputs'
        exact ⟨leftSlot.trans (ref_congr sameLeft), rightSlot.trans (ref_congr sameRight),
          ih left left' inputsLeft inputsLeft' sameLeft leftTree,
          ih right right' inputsRight inputsRight' sameRight rightTree⟩

variable (hash)

def Filed (db : CacheDB) (word : Bytes32) : Prop :=
  ∃ batch, loadBatch db word = .ok batch

def Sound (hashed : Set Bytes) (db : CacheDB) : Prop :=
  ∀ word batch, loadBatch db word = .ok batch → ∃ n t, Fits n t ∧
    (scheme hash).digest n t = word ∧ (scheme hash).inputs n t ⊆ hashed ∧ Encodes hash batch n t

/-- The subtrees of `t` that stand at the top of a batch can be loaded. -/
def Stored (db : CacheDB) : ℕ → Tree → Prop
  | _, .empty => True
  | n, .leaf key value => n % 4 = 0 → Filed db ((scheme hash).digest n (.leaf key value))
  | n, .node left right => (n % 4 = 0 → Filed db ((scheme hash).digest n (.node left right))) ∧
      Stored db (n - 1) left ∧ Stored db (n - 1) right

/-- The cache holds the subtree `t` of height `n`. -/
structure Represents (hashed : Set Bytes) (db : CacheDB) (n : ℕ) (t : Tree) : Prop where
  fits : Fits n t
  inputs : (scheme hash).inputs n t ⊆ hashed
  stored : Stored hash db n t

structure Placed (n : ℕ) (t : Tree) (root : Option Node) (batch : Batch) (i : ℕ) : Prop where
  word : root.map Node.word = (ref hash n t).map Node.word
  slots : n % 4 ≠ 0 → batch.slots i = ref hash n t ∧ InBatch hash (n % 4) batch.slots i n t

/-- How many levels below a subtree of height `n` lie in its batch. -/
def levels (n : ℕ) : ℕ := if n % 4 = 0 then 4 else n % 4

theorem levels_succ (n : ℕ) : levels (n + 1) = n % 4 + 1 := by
  unfold levels
  split <;> omega

theorem levels_pos (n : ℕ) : ∃ deep, levels n = deep + 1 := by
  unfold levels
  split
  · exact ⟨3, rfl⟩
  · exact ⟨n % 4 - 1, by omega⟩

structure Loaded (n : ℕ) (t : Tree) (batch : Batch) (i : ℕ) (children : Children) : Prop where
  lnode : children.lnode = children.batch.slots (2 * children.iBatch + 1)
  rnode : children.rnode = children.batch.slots (2 * children.iBatch + 2)
  shortcut : children.isShortcut = isLeaf t
  inBatch : InBatch hash (levels n) children.batch.slots children.iBatch n t
  top : n % 4 = 0 → children.iBatch = 0
  inner : n % 4 ≠ 0 → children.batch = batch ∧ children.iBatch = i

variable {hash} {hashed : Set Bytes}

theorem Stored.filed (stored : Stored hash db n t) (nonempty : t ≠ .empty) (top : n % 4 = 0) :
    Filed db ((scheme hash).digest n t) := by
  cases t with
  | empty => exact absurd rfl nonempty
  | leaf key value => exact stored top
  | node l r => exact stored.1 top

theorem Stored.mono (stored : Stored hash db n t) (kept : ∀ word, Filed db word → Filed db' word) :
    Stored hash db' n t := by
  induction t generalizing n with
  | empty => trivial
  | leaf key value => exact fun top => kept _ (stored top)
  | node l r ihLeft ihRight => exact ⟨fun top => kept _ (stored.1 top), ihLeft stored.2.1,
      ihRight stored.2.2⟩

theorem Represents.left (represents : Represents hash hashed db (n + 1) (.node l r)) :
    Represents hash hashed db n l := by
  cases represents.fits with
  | node left _ => exact ⟨left, (Scheme.inputs_node_subset.mp represents.inputs).2.1,
      represents.stored.2.1⟩

theorem Represents.right (represents : Represents hash hashed db (n + 1) (.node l r)) :
    Represents hash hashed db n r := by
  cases represents.fits with
  | node _ right => exact ⟨right, (Scheme.inputs_node_subset.mp represents.inputs).2.2,
      represents.stored.2.2⟩

theorem Represents.mono (represents : Represents hash hashed db n t)
    (kept : ∀ word, Filed db word → Filed db' word) : Represents hash hashed db' n t :=
  ⟨represents.fits, represents.inputs, represents.stored.mono kept⟩

theorem ref_word (nonempty : t ≠ .empty) :
    (ref hash n t).map Node.word = some ((scheme hash).digest n t) := by
  cases t with
  | empty => exact absurd rfl nonempty
  | leaf key value | node l r => rfl

private theorem ref_flag :
    (match ref hash n t with | some node => node.flag == some .shortcut | none => false) =
      isLeaf t := by
  cases t <;> rfl

theorem Represents.loadBatch (represents : Represents hash hashed db n t)
    (inj : Set.InjOn hash hashed) (sound : Sound hash hashed db) (nonempty : t ≠ .empty)
    (top : n % 4 = 0) :
    ∃ batch, loadBatch db ((scheme hash).digest n t) = .ok batch ∧ Encodes hash batch n t := by
  obtain ⟨batch, loaded⟩ := represents.stored.filed nonempty top
  obtain ⟨n', t', fits', same, inputs', shortcut, inBatch⟩ := sound _ _ loaded
  obtain rfl := Scheme.digest_binding inj fits' represents.fits inputs' represents.inputs same
  exact ⟨batch, loaded, shortcut, inBatch.of_digest_eq inj fits' represents.fits inputs'
    represents.inputs same⟩

theorem loadChildren_spec (inj : Set.InjOn hash hashed) (sound : Sound hash hashed db)
    (represents : Represents hash hashed db n t) (placed : Placed hash n t root batch i) :
    ∃ children, loadChildren db root n i batch = .ok children ∧
      Loaded hash n t batch i children := by
  unfold loadChildren
  by_cases top : n % 4 = 0
  · simp only [top, if_true]
    by_cases empty : t = .empty
    · subst empty
      have absent : root = none := by simpa [ref] using placed.word
      subst absent
      exact ⟨_, rfl, rfl, rfl, rfl, InBatch.default _ _ _, fun _ => rfl, fun inner =>
        absurd top inner⟩
    · obtain ⟨loaded, ran, shortcut, inBatch⟩ := represents.loadBatch inj sound empty top
      obtain ⟨node, rfl, word⟩ := Option.map_eq_some_iff.mp (placed.word.trans (ref_word empty))
      refine ⟨⟨loaded, 0, loaded.slots 1, loaded.slots 2, loaded.shortcut⟩, ?_, rfl, rfl, shortcut,
        ?_, fun _ => rfl, fun inner => absurd top inner⟩
      · simp only [word, ran]
        rfl
      · simpa [levels, top] using inBatch
  · simp only [top, if_false]
    obtain ⟨slot, inBatch⟩ := placed.slots top
    refine ⟨_, rfl, rfl, rfl, ?_, ?_, fun zero => absurd zero top, fun _ => ⟨rfl, rfl⟩⟩
    · simp only [slot]
      exact ref_flag
    · simpa [levels, top] using inBatch

theorem Loaded.placed (loaded : Loaded hash (n + 1) (.node l r) batch i children) :
    Placed hash n l children.lnode children.batch (2 * children.iBatch + 1) ∧
      Placed hash n r children.rnode children.batch (2 * children.iBatch + 2) := by
  have inBatch := loaded.inBatch
  rw [levels_succ] at inBatch
  obtain ⟨leftSlot, rightSlot, leftTree, rightTree⟩ := inBatch
  refine ⟨⟨?_, fun _ => ⟨leftSlot, leftTree⟩⟩, ⟨?_, fun _ => ⟨rightSlot, rightTree⟩⟩⟩
  · rw [loaded.lnode, leftSlot, Nat.add_sub_cancel]
  · rw [loaded.rnode, rightSlot, Nat.add_sub_cancel]

theorem Loaded.shortcut_data (loaded : Loaded hash n (.leaf key value) batch i children) :
    children.lnode = some ⟨key, some .data⟩ ∧ children.rnode = some ⟨value, some .data⟩ := by
  have inBatch := loaded.inBatch
  obtain ⟨deep, pos⟩ := levels_pos n
  rw [pos] at inBatch
  exact ⟨loaded.lnode.trans inBatch.1, loaded.rnode.trans inBatch.2.1⟩

private theorem get_empty (placed : Placed hash n .empty root batch i) (db : CacheDB)
    (key : Bytes32) : get db n root key batch i = .ok none := by
  have absent : root = none := by simpa [ref] using placed.word
  cases n <;> simp [absent, get, pure, Except.pure]

private theorem get_leaf (inj : Set.InjOn hash hashed) (sound : Sound hash hashed db)
    (represents : Represents hash hashed db n (.leaf stored value))
    (placed : Placed hash n (.leaf stored value) root batch i) (key : Bytes32) :
    get db n root key batch i = .ok (if stored = key then some value else none) := by
  obtain ⟨children, ran, loaded⟩ := loadChildren_spec inj sound represents placed
  obtain ⟨node, rfl, _⟩ := Option.map_eq_some_iff.mp placed.word
  obtain ⟨keySlot, valueSlot⟩ := loaded.shortcut_data
  cases n <;> simp [get, ran, loaded.shortcut, isLeaf, keySlot, valueSlot, bind, Except.bind, pure,
    Except.pure]

theorem get_eq_lookup (inj : Set.InjOn hash hashed) (sound : Sound hash hashed db)
    (bound : n ≤ TrieHeight) (represents : Represents hash hashed db n t)
    (placed : Placed hash n t root batch i) (key : Bytes32) :
    get db n root key batch i = .ok (lookup bitIsSet (TrieHeight - n) t key) := by
  induction n generalizing t root batch i with
  | zero =>
    cases represents.fits with
    | empty => exact get_empty placed db key
    | leaf stored value => exact get_leaf inj sound represents placed key
  | succ n ih =>
    cases represents.fits with
    | empty => exact get_empty placed db key
    | leaf stored value => exact get_leaf inj sound represents placed key
    | node _ _ =>
      obtain ⟨children, ran, loaded⟩ := loadChildren_spec inj sound represents placed
      obtain ⟨node, rfl, _⟩ := Option.map_eq_some_iff.mp placed.word
      have depth : TrieHeight - (n + 1) + 1 = TrieHeight - n := by omega
      obtain ⟨left, right⟩ := loaded.placed
      simp only [get, ran, loaded.shortcut, isLeaf, bind, Except.bind, lookup, depth,
        Bool.false_eq_true, if_false]
      split
      · exact ih (by omega) represents.right right
      · exact ih (by omega) represents.left left

end

end AliceNet.BadgerTrie
