import Mathlib

/-! Doubly linked lists that are kept in a table. -/

namespace LinkedTable

open Function List

universe u

variable {κ : Type u}

def Linked (next prev : κ → κ) (nil : κ) : (before : κ) → (keys : List κ) → Prop
  | _, [] => True
  | before, key :: rest => prev key = before ∧ next key = rest.headD nil ∧
      Linked next prev nil key rest

variable {next prev next' prev' : κ → κ} {nil before key last : κ} {keys front back : List κ}

theorem Linked.congr (linked : Linked next prev nil before keys)
    (nexts : ∀ key ∈ keys, next' key = next key) (prevs : ∀ key ∈ keys, prev' key = prev key) :
    Linked next' prev' nil before keys := by
  induction keys generalizing before with
  | nil => trivial
  | cons key rest ih =>
    obtain ⟨back, forth, linked⟩ := linked
    refine ⟨(prevs key (by simp)).trans back, (nexts key (by simp)).trans forth, ?_⟩
    exact ih linked (fun other mem => nexts other (by simp [mem])) fun other mem =>
      prevs other (by simp [mem])

theorem Linked.neighbours (linked : Linked next prev nil before (front ++ key :: back)) :
    prev key = front.getLastD before ∧ next key = back.headD nil := by
  induction front generalizing before with
  | nil => exact ⟨linked.1, linked.2.1⟩
  | cons first rest ih =>
    have here := ih linked.2.2
    rwa [getLastD_cons]

theorem Linked.suffix (linked : Linked next prev nil before (front ++ keys)) :
    Linked next prev nil (front.getLastD before) keys := by
  induction front generalizing before with
  | nil => exact linked
  | cons first rest ih =>
    rw [getLastD_cons]
    exact ih linked.2.2

theorem Linked.extend (linked : Linked next prev nil before (front ++ [last]))
    (nexts : ∀ other ∈ front, next' other = next other)
    (prevs : ∀ other ∈ front ++ [last], prev' other = prev other) (forth : next' last = key)
    (back : prev' key = last) (ending : next' key = nil') :
    Linked next' prev' nil' before (front ++ [last, key]) := by
  induction front generalizing before with
  | nil => exact ⟨(prevs last (by simp)).trans linked.1, forth, back, ending, trivial⟩
  | cons first rest ih =>
    obtain ⟨firstBack, firstForth, linked⟩ := linked
    refine ⟨(prevs first (by simp)).trans firstBack, (nexts first (by simp)).trans ?_,
      ih linked (fun other mem => nexts other (by simp [mem])) fun other mem => prevs other (by
        rw [cons_append]; exact mem_cons_of_mem _ mem)⟩
    rw [firstForth]
    cases rest <;> rfl

theorem Linked.append [DecidableEq κ] (linked : Linked next prev nil before (front ++ [last]))
    (distinct : (front ++ [last]).Nodup) (fresh : key ∉ front ++ [last]) :
    Linked (Function.update (Function.update next key nil) last key) (Function.update prev key last)
      nil before
      (front ++ [last, key]) := by
  have apart : ∀ other ∈ front ++ [last], other ≠ key := fun other mem same => fresh (same ▸ mem)
  have notLast : ∀ other ∈ front, other ≠ last := fun other mem =>
    (nodup_append.mp distinct).2.2 other mem last (mem_singleton.mpr rfl)
  refine linked.extend (fun other mem => ?_) (fun other mem => update_of_ne (apart other mem) _ _)
    (update_self _ _ _) (update_self _ _ _) ?_
  · rw [update_of_ne (notLast other mem), update_of_ne (apart other (by simp [mem]))]
  · rw [update_of_ne (apart last (by simp)).symm, update_self]

end LinkedTable
