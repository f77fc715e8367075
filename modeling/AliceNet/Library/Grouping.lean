import Mathlib

/-! Items and their groups, kept twice. -/

namespace Grouping

open Function List Option

variable {α β : Type*} {groupOf : α → Option β} {members : β → Option (List α)} {a : α} {b : β}

structure Exact (groupOf : α → Option β) (members : β → Option (List α)) : Prop where
  listed : ∀ b, (members b).isSome ↔ ∃ a, groupOf a = some b
  mem_iff : ∀ b items, members b = some items → ∀ a, a ∈ items ↔ groupOf a = some b
  nodup : ∀ b items, members b = some items → items.Nodup

/-- An item that shares its group with no other. -/
def Alone (groupOf : α → Option β) (a : α) (b : β) : Prop :=
  groupOf a = some b ∧ ∀ a', groupOf a' = some b → a' = a

theorem Exact.nil : Exact (fun _ : α => (none : Option β)) fun _ => none := by
  constructor <;> simp

section

variable (exact : Exact groupOf members)

include exact

theorem Exact.group (found : groupOf a = some b) :
    ∃ items, members b = some items ∧ a ∈ items := by
  obtain ⟨items, listed⟩ := isSome_iff_exists.mp ((exact.listed b).mpr ⟨a, found⟩)
  exact ⟨items, listed, (exact.mem_iff b items listed a).mpr found⟩

theorem Exact.vacant (absent : members b = none) : groupOf a ≠ some b := by
  intro found
  have listed := (exact.listed b).mpr ⟨a, found⟩
  rw [absent] at listed
  cases listed

theorem Exact.alone (alone : Alone groupOf a b) : members b = some [a] := by
  obtain ⟨items, listed, mem⟩ := exact.group alone.1
  rw [listed, some.injEq, ← perm_singleton]
  refine (perm_ext_iff_of_nodup (exact.nodup b items listed) (nodup_singleton a)).mpr fun a' => ?_
  rw [mem_singleton]
  constructor
  · intro other
    exact alone.2 a' ((exact.mem_iff b items listed a').mp other)
  · rintro rfl
    exact mem

theorem Exact.items (b : β) :
    ((members b).getD []).Nodup ∧ ∀ a, a ∈ (members b).getD [] ↔ groupOf a = some b := by
  cases listed : members b with
  | none => exact ⟨nodup_nil, fun a => iff_of_false not_mem_nil (exact.vacant listed)⟩
  | some items => exact ⟨exact.nodup b items listed, exact.mem_iff b items listed⟩

end

variable [DecidableEq α] [DecidableEq β]

omit [DecidableEq β] in
theorem Alone.join (alone : Alone groupOf a b) (fresh : groupOf new = none) (apart : b ≠ b') :
    Alone (update groupOf new (some b')) a b := by
  obtain ⟨found, only⟩ := alone
  refine ⟨?_, fun a' mem => ?_⟩
  · rw [update_of_ne, found]
    rintro rfl
    rw [fresh] at found
    cases found
  · by_cases same : a' = new
    · subst same
      rw [update_self, some.injEq] at mem
      exact absurd mem.symm apart
    · rw [update_of_ne same] at mem
      exact only a' mem

omit [DecidableEq β] in
theorem Alone.close (alone : Alone groupOf a b) (apart : a ≠ gone) :
    Alone (update groupOf gone none) a b := by
  refine ⟨by rw [update_of_ne apart, alone.1], fun a' mem => ?_⟩
  by_cases same : a' = gone
  · subst same
    simp at mem
  · rw [update_of_ne same] at mem
    exact alone.2 a' mem

theorem Exact.join (exact : Exact groupOf members) (fresh : groupOf a = none) {items : List α}
    (others : (members b).getD [] = items) :
    Exact (update groupOf a (some b)) (update members b (some (items ++ [a]))) := by
  obtain ⟨nodup_items, mem_items⟩ := others ▸ exact.items b
  have new : a ∉ items := by
    rw [mem_items, fresh]
    simp
  constructor
  · intro b'
    by_cases same : b' = b
    · subst same
      rw [update_self]
      exact iff_of_true rfl ⟨a, update_self ..⟩
    · rw [update_of_ne same, exact.listed]
      refine exists_congr fun a' => ?_
      by_cases own : a' = a
      · subst own
        rw [update_self, fresh]
        simp [Ne.symm same]
      · rw [update_of_ne own]
  · intro b' list found a'
    by_cases same : b' = b
    · subst same
      rw [update_self, some.injEq] at found
      rw [← found, mem_append, mem_singleton, mem_items]
      by_cases own : a' = a
      · subst own
        simp
      · rw [update_of_ne own]
        simp [own]
    · rw [update_of_ne same] at found
      rw [exact.mem_iff b' list found]
      by_cases own : a' = a
      · subst own
        rw [update_self, fresh]
        simp [Ne.symm same]
      · rw [update_of_ne own]
  · intro b' list found
    by_cases same : b' = b
    · subst same
      rw [update_self, some.injEq] at found
      rw [← found, nodup_append]
      refine ⟨nodup_items, nodup_singleton a, ?_⟩
      intro x mem y single equal
      rw [mem_singleton] at single
      exact new (single ▸ equal ▸ mem)
    · rw [update_of_ne same] at found
      exact exact.nodup b' list found

theorem Exact.close (exact : Exact groupOf members) (alone : Alone groupOf a b) :
    Exact (update groupOf a none) (update members b none) := by
  have other : ∀ a' b', b' ≠ b → (update groupOf a none a' = some b' ↔ groupOf a' = some b') := by
    intro a' b' apart
    by_cases own : a' = a
    · subst own
      rw [update_self, alone.1]
      simp [Ne.symm apart]
    · rw [update_of_ne own]
  constructor
  · intro b'
    by_cases same : b' = b
    · subst same
      rw [update_self]
      refine iff_of_false (by simp) ?_
      rintro ⟨a', mem⟩
      by_cases own : a' = a
      · subst own
        simp at mem
      · rw [update_of_ne own] at mem
        exact own (alone.2 a' mem)
    · rw [update_of_ne same, exact.listed]
      exact exists_congr fun a' => (other a' b' same).symm
  · intro b' list listed a'
    by_cases same : b' = b
    · subst same
      simp at listed
    · rw [update_of_ne same] at listed
      rw [exact.mem_iff b' list listed, other a' b' same]
  · intro b' list listed
    by_cases same : b' = b
    · subst same
      simp at listed
    · rw [update_of_ne same] at listed
      exact exact.nodup b' list listed

end Grouping
