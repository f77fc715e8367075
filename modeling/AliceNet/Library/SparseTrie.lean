import Mathlib

/-! Compact binary tries over keys that are read bit by bit. -/

namespace SparseTrie

universe u v

inductive Trie (κ : Type u) (ν : Type v)
  | empty
  | leaf (key : κ) (value : ν)
  | node (left right : Trie κ ν)
  deriving DecidableEq, Repr

variable {κ : Type u} {ν : Type v}

namespace Trie

def entries : Trie κ ν → List (κ × ν)
  | empty => []
  | leaf key value => [(key, value)]
  | node left right => left.entries ++ right.entries

def keys (t : Trie κ ν) : List κ :=
  t.entries.map Prod.fst

@[simp] theorem keys_empty : (empty : Trie κ ν).keys = [] := rfl

@[simp] theorem keys_leaf (key : κ) (value : ν) : (leaf key value).keys = [key] := rfl

@[simp] theorem keys_node (left right : Trie κ ν) :
    (node left right).keys = left.keys ++ right.keys := by
  simp [keys, entries]

def IsNode : Trie κ ν → Prop
  | node _ _ => True
  | _ => False

end Trie

open Trie List

variable [DecidableEq κ] (bit : κ → ℕ → Bool)

/-- Follow the bits of `key` from bit `depth` on. -/
def lookup (depth : ℕ) : Trie κ ν → κ → Option ν
  | .empty, _ => none
  | .leaf stored value, key => if stored = key then some value else none
  | .node left right, key =>
    if bit key depth then lookup (depth + 1) right key else lookup (depth + 1) left key

/-- Every key stands where its bits lead, and nodes have at least two keys below them. -/
inductive Canonical : (height depth : ℕ) → Trie κ ν → Prop
  | empty : Canonical height depth .empty
  | leaf (key : κ) (value : ν) : Canonical height depth (.leaf key value)
  | node (left : Canonical height (depth + 1) l) (right : Canonical height (depth + 1) r)
      (zeros : ∀ key ∈ l.keys, bit key depth = false) (ones : ∀ key ∈ r.keys, bit key depth = true)
      (shared : 2 ≤ l.keys.length + r.keys.length) : Canonical (height + 1) depth (.node l r)

/-- The trie has at most `height` levels of nodes. -/
inductive Fits : (height : ℕ) → Trie κ ν → Prop
  | empty : Fits height .empty
  | leaf (key : κ) (value : ν) : Fits height (.leaf key value)
  | node (left : Fits height l) (right : Fits height r) : Fits (height + 1) (.node l r)

variable {bit} {t l r : Trie κ ν}

theorem lookup_none_of_not_mem (absent : key ∉ t.keys) (depth : ℕ) :
    lookup bit depth t key = none := by
  induction t generalizing depth with
  | empty => rfl
  | leaf stored value =>
    have different : stored ≠ key := fun same => absent (by simp [same])
    simp [lookup, different]
  | node left right ihLeft ihRight =>
    simp only [keys_node, mem_append, not_or] at absent
    simp [lookup, ihLeft absent.1, ihRight absent.2]

theorem mem_entries_of_lookup (found : lookup bit depth t key = some value) :
    (key, value) ∈ t.entries := by
  induction t generalizing depth with
  | empty => simp [lookup] at found
  | leaf stored kept =>
    simp only [lookup] at found
    split at found
    · rename_i same
      simp_all [entries]
    · cases found
  | node left right ihLeft ihRight =>
    simp only [lookup] at found
    split at found
    · exact mem_append_right _ (ihRight found)
    · exact mem_append_left _ (ihLeft found)

theorem Canonical.lookup_of_mem (canonical : Canonical bit height depth t)
    (mem : (key, value) ∈ t.entries) : lookup bit depth t key = some value := by
  induction canonical with
  | empty => simp [entries] at mem
  | leaf stored kept =>
    simp only [entries, mem_singleton, Prod.mk.injEq] at mem
    simp [lookup, mem]
  | node left right zeros ones shared ihLeft ihRight =>
    rcases mem_append.mp mem with mem | mem
    · simp [lookup, zeros key (mem_map_of_mem mem), ihLeft mem]
    · simp [lookup, ones key (mem_map_of_mem mem), ihRight mem]

theorem Canonical.lookup_eq_none_iff (canonical : Canonical bit height depth t) :
    lookup bit depth t key = none ↔ key ∉ t.keys := by
  refine ⟨fun missing mem => ?_, fun absent => lookup_none_of_not_mem absent depth⟩
  obtain ⟨⟨_, value⟩, present, rfl⟩ := mem_map.mp mem
  simp [canonical.lookup_of_mem present] at missing

def join : Trie κ ν → Trie κ ν → Trie κ ν
  | .empty, .empty => .empty
  | .empty, .leaf key value => .leaf key value
  | .leaf key value, .empty => .leaf key value
  | left, right => .node left right

omit [DecidableEq κ] in
theorem Canonical.two_le_of_node (canonical : Canonical bit height depth (.node l r)) :
    2 ≤ (Trie.node l r).keys.length := by
  cases canonical with
  | node _ _ _ _ shared => simpa using shared

omit [DecidableEq κ] in
theorem Canonical.keys_pos (canonical : Canonical bit height depth t) (nonempty : t ≠ .empty) :
    0 < t.keys.length := by
  cases canonical with
  | empty => exact absurd rfl nonempty
  | leaf key value => simp
  | node left right zeros ones shared => simp; omega

omit [DecidableEq κ] in
theorem Canonical.join (left : Canonical bit height (depth + 1) l)
    (right : Canonical bit height (depth + 1) r) (zeros : ∀ key ∈ l.keys, bit key depth = false)
    (ones : ∀ key ∈ r.keys, bit key depth = true) :
    Canonical bit (height + 1) depth (join l r) := by
  unfold SparseTrie.join
  split
  · exact .empty
  · exact .leaf _ _
  · exact .leaf _ _
  · rename_i notEmpty notRight notLeft
    refine .node left right zeros ones ?_
    cases l with
    | empty =>
      cases r with
      | empty => exact absurd rfl (notEmpty rfl)
      | leaf key value => exact absurd rfl (notRight key value rfl)
      | node _ _ => exact right.two_le_of_node.trans (Nat.le_add_left _ _)
    | leaf key value =>
      have := right.keys_pos (fun same => notLeft key value rfl same)
      simp only [keys_leaf, length_singleton]
      omega
    | node _ _ => exact left.two_le_of_node.trans (Nat.le_add_right _ _)

theorem lookup_join (zeros : ∀ key ∈ l.keys, bit key depth = false)
    (ones : ∀ key ∈ r.keys, bit key depth = true) (key : κ) :
    lookup bit depth (join l r) key =
      if bit key depth then lookup bit (depth + 1) r key else lookup bit (depth + 1) l key := by
  unfold join
  split
  · simp [lookup]
  · rename_i stored value
    by_cases same : stored = key
    · subst same
      simp [lookup, ones stored (by simp)]
    · simp [lookup, same]
  · rename_i stored value
    by_cases same : stored = key
    · subst same
      simp [lookup, zeros stored (by simp)]
    · simp [lookup, same]
  · rfl

omit [DecidableEq κ] in
theorem join_of_ne_empty (left : l ≠ .empty) (right : r ≠ .empty) : join l r = .node l r := by
  cases l with
  | empty => exact absurd rfl left
  | leaf key value | node _ _ =>
    cases r with
    | empty => exact absurd rfl right
    | leaf _ _ | node _ _ => rfl

omit [DecidableEq κ] in
theorem join_of_isNode (one : l.IsNode ∨ r.IsNode) : join l r = .node l r := by
  rcases one with left | right
  · cases l with
    | empty | leaf key value => cases left
    | node _ _ => rfl
  · cases r with
    | empty | leaf key value => cases right
    | node _ _ => cases l <;> rfl

omit [DecidableEq κ] in
theorem Canonical.join_eq (canonical : Canonical bit height depth (.node l r)) :
    SparseTrie.join l r = .node l r := by
  cases canonical with
  | node _ _ _ _ shared => cases l <;> cases r <;> simp_all [SparseTrie.join]

omit [DecidableEq κ] in
theorem isNode_of_join (whole : join l r = .node l r) :
    (l = .empty → r.IsNode) ∧ (r = .empty → l.IsNode) := by
  cases l <;> cases r <;> simp_all [join, IsNode]

omit [DecidableEq κ] in
theorem Canonical.nodup (canonical : Canonical bit height depth t) : t.keys.Nodup := by
  induction canonical with
  | empty => simp
  | leaf key value => simp
  | node left right zeros ones shared ihLeft ihRight =>
    rw [keys_node]
    refine List.Nodup.append ihLeft ihRight fun key low high => ?_
    exact Bool.false_ne_true ((zeros key low).symm.trans (ones key high))

theorem Canonical.eq_empty (canonical : Canonical bit height depth t)
    (none : ∀ key, lookup bit depth t key = none) : t = .empty := by
  by_contra nonempty
  obtain ⟨key, mem⟩ := exists_mem_of_length_pos (canonical.keys_pos nonempty)
  exact canonical.lookup_eq_none_iff.mp (none key) mem

theorem Canonical.eq_leaf (canonical : Canonical bit height depth t)
    (only : ∀ other, lookup bit depth t other = if key = other then some value else none) :
    t = .leaf key value := by
  have keys : ∀ other ∈ t.keys, other = key := by
    intro other mem
    by_contra different
    refine canonical.lookup_eq_none_iff.mp ?_ mem
    rw [only, if_neg (Ne.symm different)]
  cases canonical with
  | empty => simpa [lookup] using only key
  | leaf stored kept =>
    obtain rfl : stored = key := keys stored (by simp)
    simpa [lookup] using only stored
  | node left right zeros ones shared =>
    have distinct := (Canonical.node left right zeros ones shared).nodup
    have replicated := eq_replicate_of_mem keys
    rw [replicated, nodup_replicate] at distinct
    rw [keys_node, length_append] at distinct
    omega

private theorem lookup_side (zeros : ∀ key ∈ l.keys, bit key depth = false)
    (ones : ∀ key ∈ r.keys, bit key depth = true) (key : κ) :
    lookup bit (depth + 1) l key = (if bit key depth then none else
      lookup bit depth (.node l r) key) ∧
      lookup bit (depth + 1) r key = if bit key depth then lookup bit depth (.node l r) key else
        none := by
  cases side : bit key depth with
  | false =>
    refine ⟨by simp [lookup, side], ?_⟩
    rw [lookup_none_of_not_mem fun mem => by simp [ones key mem] at side]
    simp
  | true =>
    refine ⟨?_, by simp [lookup, side]⟩
    rw [lookup_none_of_not_mem fun mem => by simp [zeros key mem] at side]
    simp

theorem Canonical.unique (canonical : Canonical bit height depth t)
    (canonical' : Canonical bit height' depth t')
    (same : ∀ key, lookup bit depth t key = lookup bit depth t' key) : t = t' := by
  induction canonical generalizing height' t' with
  | empty => exact (canonical'.eq_empty fun key => (same key).symm).symm
  | leaf key value => exact (canonical'.eq_leaf fun other => (same other).symm).symm
  | node left right zeros ones shared ihLeft ihRight =>
    cases canonical' with
    | empty => exact (Canonical.node left right zeros ones shared).eq_empty same
    | leaf key' value' => exact (Canonical.node left right zeros ones shared).eq_leaf same
    | node left' right' zeros' ones' shared' =>
      congr 1
      · refine ihLeft left' fun key => ?_
        rw [(lookup_side zeros ones key).1, (lookup_side zeros' ones' key).1, same]
      · refine ihRight right' fun key => ?_
        rw [(lookup_side zeros ones key).2, (lookup_side zeros' ones' key).2, same]

end SparseTrie
