import AliceNet.Library.SparseTrie

/-! Digests of compact tries, binding relative to the inputs that were hashed. -/

namespace MerkleTrie

open SparseTrie

universe u v w x

/-- The three kinds of input never coincide, and a leaf binds its key and value. -/
structure Scheme (κ : Type u) (ν : Type v) (δ : Type w) (ι : Type x) where
  hash : ι → δ
  leafInput : κ → ν → ℕ → ι
  nodeInput : δ → δ → ι
  emptyInput : ι
  leaf_injective : leafInput k v n = leafInput k' v' n' → k = k' ∧ v = v'
  node_injective : nodeInput l r = nodeInput l' r' → l = l' ∧ r = r'
  leaf_ne_node : leafInput k v n ≠ nodeInput l r
  leaf_ne_empty : leafInput k v n ≠ emptyInput
  node_ne_empty : nodeInput l r ≠ emptyInput

variable {κ : Type u} {ν : Type v} {δ : Type w} {ι : Type x} (scheme : Scheme κ ν δ ι)

namespace Scheme

def emptyDigest : δ := scheme.hash scheme.emptyInput

/-- What is hashed to get the digest of a trie of `height` levels. -/
def input : ℕ → Trie κ ν → ι
  | _, .empty => scheme.emptyInput
  | height, .leaf key value => scheme.leafInput key value height
  | height, .node left right =>
    scheme.nodeInput (scheme.hash (input (height - 1) left))
      (scheme.hash (input (height - 1) right))

def digest (height : ℕ) (t : Trie κ ν) : δ :=
  scheme.hash (scheme.input height t)

@[simp] theorem digest_empty (height : ℕ) : scheme.digest height .empty = scheme.emptyDigest := rfl

/-- All that is hashed for a trie, its empty subtrees included. -/
def inputs : ℕ → Trie κ ν → Set ι
  | height, .node left right =>
    insert (scheme.input height (.node left right)) (inputs (height - 1) left ∪
      inputs (height - 1) right)
  | height, t => {scheme.input height t}

theorem input_mem_inputs (height : ℕ) (t : Trie κ ν) :
    scheme.input height t ∈ scheme.inputs height t := by
  cases t <;> simp [inputs]

variable {scheme} {hashed : Set ι} {t t' l r : Trie κ ν}

theorem inputs_node_subset :
    scheme.inputs (height + 1) (.node l r) ⊆ hashed ↔
      scheme.input (height + 1) (.node l r) ∈ hashed ∧ scheme.inputs height l ⊆ hashed ∧
        scheme.inputs height r ⊆ hashed := by
  simp [inputs, Set.insert_subset_iff, Set.union_subset_iff]

theorem input_eq_of_digest_eq (inj : Set.InjOn scheme.hash hashed)
    (within : scheme.inputs height t ⊆ hashed) (within' : scheme.inputs height' t' ⊆ hashed)
    (same : scheme.digest height t = scheme.digest height' t') :
    scheme.input height t = scheme.input height' t' :=
  inj (within (scheme.input_mem_inputs height t)) (within' (scheme.input_mem_inputs height' t'))
    same

theorem digest_binding (inj : Set.InjOn scheme.hash hashed) (fits : Fits height t)
    (fits' : Fits height' t') (within : scheme.inputs height t ⊆ hashed)
    (within' : scheme.inputs height' t' ⊆ hashed)
    (same : scheme.digest height t = scheme.digest height' t') : t = t' := by
  induction fits generalizing height' t' with
  | empty =>
    have sameInput := input_eq_of_digest_eq inj within within' same
    cases t' with
    | empty => rfl
    | leaf key value => exact absurd sameInput.symm scheme.leaf_ne_empty
    | node l' r' => exact absurd sameInput.symm scheme.node_ne_empty
  | leaf key value =>
    have sameInput := input_eq_of_digest_eq inj within within' same
    cases t' with
    | empty => exact absurd sameInput scheme.leaf_ne_empty
    | leaf key' value' =>
      obtain ⟨rfl, rfl⟩ := scheme.leaf_injective sameInput
      rfl
    | node l' r' => exact absurd sameInput scheme.leaf_ne_node
  | node left right ihLeft ihRight =>
    have sameInput := input_eq_of_digest_eq inj within within' same
    cases fits' with
    | empty => exact absurd sameInput scheme.node_ne_empty
    | leaf key' value' => exact absurd sameInput.symm scheme.leaf_ne_node
    | node left' right' =>
      obtain ⟨sameLeft, sameRight⟩ := scheme.node_injective sameInput
      obtain ⟨_, withinLeft, withinRight⟩ := inputs_node_subset.mp within
      obtain ⟨_, withinLeft', withinRight'⟩ := inputs_node_subset.mp within'
      rw [ihLeft left' withinLeft withinLeft' sameLeft,
        ihRight right' withinRight withinRight' sameRight]

end Scheme

end MerkleTrie
