import AliceNet.Library.MerkleTrie

/-! Audit paths: the digests beside a path through a trie, from the root down. -/

namespace MerkleTrie

open SparseTrie Set

universe u v w x

namespace Scheme

variable {κ : Type u} {ν : Type v} {δ : Type w} {ι : Type x} (scheme : Scheme κ ν δ ι)

def stepInput (right : Bool) (sibling below : δ) : ι :=
  if right then scheme.nodeInput sibling below else scheme.nodeInput below sibling

def rootOf (side : ℕ → Bool) : (depth : ℕ) → (siblings : List δ) → (start : δ) → δ
  | _, [], start => start
  | depth, sibling :: siblings, start =>
    scheme.hash (scheme.stepInput (side depth) sibling (rootOf side (depth + 1) siblings start))

/-- All that is hashed on the way up a path. -/
def pathInputs (side : ℕ → Bool) : (depth : ℕ) → (siblings : List δ) → (start : δ) → Set ι
  | _, [], _ => ∅
  | depth, sibling :: siblings, start =>
    insert (scheme.stepInput (side depth) sibling (scheme.rootOf side (depth + 1) siblings start))
      (pathInputs side (depth + 1) siblings start)

/-- An input that is not that of a node, and so the end of a path. -/
def Terminal (input : ι) : Prop :=
  ∀ left right, input ≠ scheme.nodeInput left right

variable {scheme} {hashed : Set ι} {side : ℕ → Bool} {t l r : Trie κ ν}

private theorem stepInput_injective
    (same : scheme.stepInput right sibling below = scheme.stepInput right sibling' below') :
    sibling = sibling' ∧ below = below' := by
  unfold stepInput at same
  split at same
  · exact scheme.node_injective same
  · exact (scheme.node_injective same).symm

theorem Terminal.ne_stepInput (terminal : scheme.Terminal last) :
    last ≠ scheme.stepInput right sibling below := by
  unfold stepInput
  split <;> exact terminal _ _

theorem rootOf_binding (inj : Set.InjOn scheme.hash hashed) (terminal : scheme.Terminal last)
    (terminal' : scheme.Terminal last') (known : last ∈ hashed) (known' : last' ∈ hashed)
    (path : scheme.pathInputs side depth siblings (scheme.hash last) ⊆ hashed)
    (path' : scheme.pathInputs side depth siblings' (scheme.hash last') ⊆ hashed)
    (same : scheme.rootOf side depth siblings (scheme.hash last) =
      scheme.rootOf side depth siblings' (scheme.hash last')) :
    siblings = siblings' ∧ last = last' := by
  induction siblings generalizing depth siblings' with
  | nil =>
    cases siblings' with
    | nil => exact ⟨rfl, inj known known' same⟩
    | cons sibling' siblings' =>
      exact absurd (inj known (path' (mem_insert _ _)) same) terminal.ne_stepInput
  | cons sibling siblings ih =>
    cases siblings' with
    | nil => exact absurd (inj (path (mem_insert _ _)) known' same).symm terminal'.ne_stepInput
    | cons sibling' siblings' =>
      have top := inj (path (mem_insert _ _)) (path' (mem_insert _ _)) same
      obtain ⟨rfl, below⟩ := stepInput_injective top
      obtain ⟨rfl, ends⟩ :=
        ih ((subset_insert _ _).trans path) ((subset_insert _ _).trans path') below
      exact ⟨rfl, ends⟩

theorem rootOf_snoc : scheme.rootOf side depth (siblings ++ [sibling]) start =
    scheme.rootOf side depth siblings
      (scheme.hash (scheme.stepInput (side (depth + siblings.length)) sibling start)) := by
  induction siblings generalizing depth with
  | nil => rfl
  | cons first siblings ih =>
    simp only [List.cons_append, rootOf, List.length_cons, ih]
    rw [Nat.add_right_comm, Nat.add_assoc]

theorem terminal_empty (scheme : Scheme κ ν δ ι) : scheme.Terminal scheme.emptyInput :=
  fun _ _ same => scheme.node_ne_empty same.symm

theorem terminal_leaf : scheme.Terminal (scheme.leafInput key value height) :=
  fun _ _ => scheme.leaf_ne_node

theorem exists_path [DecidableEq κ] (scheme : Scheme κ ν δ ι) (bit : κ → ℕ → Bool)
    (fits : Fits height t) (depth : ℕ) (key : κ) :
    ∃ siblings last, ¬ last.IsNode ∧ siblings.length ≤ height ∧
      scheme.digest height t = scheme.rootOf (bit key) depth siblings
        (scheme.digest (height - siblings.length) last) ∧
      scheme.pathInputs (bit key) depth siblings (scheme.digest (height - siblings.length) last) ⊆
        scheme.inputs height t ∧
      scheme.input (height - siblings.length) last ∈ scheme.inputs height t ∧
      lookup bit depth t key = lookup bit (depth + siblings.length) last key := by
  induction fits generalizing depth with
  | empty => exact ⟨[], .empty, id, Nat.zero_le _, rfl, empty_subset _, scheme.input_mem_inputs _ _,
      rfl⟩
  | leaf stored value =>
    exact ⟨[], .leaf stored value, id, Nat.zero_le _, rfl, empty_subset _,
      scheme.input_mem_inputs _ _, rfl⟩
  | @node height left right _ _ ihLeft ihRight =>
    have node : ∀ {s : Set ι}, s ⊆ scheme.inputs height left ∪ scheme.inputs height right →
        insert (scheme.input (height + 1) (.node left right)) s ⊆
            scheme.inputs (height + 1) (.node left right) :=
      fun below => insert_subset_insert below
    by_cases side : bit key depth = true
    · obtain ⟨siblings, last, ends, bound, root, path, known, found⟩ := ihRight (depth + 1)
      refine ⟨scheme.digest height left :: siblings, last, ends, Nat.succ_le_succ bound, ?_, ?_, ?_,
        ?_⟩
      · rw [List.length_cons, Nat.add_sub_add_right, rootOf, ← root, stepInput, if_pos side]
        rfl
      · rw [List.length_cons, Nat.add_sub_add_right, pathInputs, ← root, stepInput, if_pos side]
        exact node (path.trans subset_union_right)
      · rw [List.length_cons, Nat.add_sub_add_right]
        exact mem_insert_of_mem _ (.inr known)
      · rw [lookup, if_pos side, found, List.length_cons, Nat.add_right_comm, Nat.add_assoc]
    · obtain ⟨siblings, last, ends, bound, root, path, known, found⟩ := ihLeft (depth + 1)
      refine ⟨scheme.digest height right :: siblings, last, ends, Nat.succ_le_succ bound, ?_, ?_,
        ?_, ?_⟩
      · rw [List.length_cons, Nat.add_sub_add_right, rootOf, ← root, stepInput, if_neg side]
        rfl
      · rw [List.length_cons, Nat.add_sub_add_right, pathInputs, ← root, stepInput, if_neg side]
        exact node (path.trans subset_union_left)
      · rw [List.length_cons, Nat.add_sub_add_right]
        exact mem_insert_of_mem _ (.inl known)
      · rw [lookup, if_neg side, found, List.length_cons, Nat.add_right_comm, Nat.add_assoc]

end Scheme

end MerkleTrie
