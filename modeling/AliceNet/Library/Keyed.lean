import Mathlib

/-! A table whose entries are worked on one at a time, each by the work addressed to it only. -/

namespace Keyed

open Function

variable {κ σ ω : Type*} {step : σ → ω → σ} {fits : σ → ω → Prop}

/-- Every item fits the state that the items before it leave. -/
def Along (step : σ → ω → σ) (fits : σ → ω → Prop) : σ → List ω → Prop
  | _, [] => True
  | s, item :: rest => fits s item ∧ Along step fits (step s item) rest

instance Along.decidable [∀ s item, Decidable (fits s item)] (s : σ) (items : List ω) :
    Decidable (Along step fits s items) :=
  match items with
  | [] => .isTrue trivial
  | item :: rest => @instDecidableAnd _ _ _ (Along.decidable (step s item) rest)

theorem Along.of_invariant (inv : σ → Prop) (kind : ω → Prop) {items : List ω} (holds : inv s)
    (kinds : ∀ item ∈ items, kind item)
    (stays : ∀ s item, inv s → kind item → fits s item ∧ inv (step s item)) :
    Along step fits s items ∧ inv (items.foldl step s) := by
  induction items generalizing s with
  | nil => exact ⟨trivial, holds⟩
  | cons item rest ih =>
    obtain ⟨kind, kinds⟩ := List.forall_mem_cons.mp kinds
    obtain ⟨fit, kept⟩ := stays s item holds kind
    obtain ⟨along, reached⟩ := ih kept kinds
    exact ⟨⟨fit, along⟩, reached⟩

theorem along_invariant_iff (inv : σ → Prop) {asked : σ → ω → Prop} {items : List ω} (holds : inv s)
    (stays : ∀ s item, inv s → (inv (step s item) ↔ asked s item)) :
    Along step (fun s item => inv (step s item)) s items ↔ Along step asked s items := by
  induction items generalizing s with
  | nil => exact Iff.rfl
  | cons item rest ih =>
    rw [Along, Along, stays s item holds]
    exact and_congr_right fun fit => ih ((stays s item holds).mpr fit)

variable [DecidableEq κ]

/-- The work for one entry, in order. -/
def addressed (key : κ) (work : List (κ × ω)) : List ω := (work.filter (·.1 = key)).map Prod.snd

theorem mem_addressed {work : List (κ × ω)} : item ∈ addressed key work ↔ (key, item) ∈ work := by
  simp [addressed]

def stepAt (step : σ → ω → σ) (table : κ → σ) (task : κ × ω) : κ → σ :=
  Function.update table task.1 (step (table task.1) task.2)

theorem addressed_cons (key : κ) (task : κ × ω) (work : List (κ × ω)) :
    addressed key (task :: work) = if task.1 = key then task.2 :: addressed key work else
      addressed key work := by
  by_cases same : task.1 = key <;> simp [addressed, same]

theorem along_iff (step : σ → ω → σ) (fits : σ → ω → Prop) {work : List (κ × ω)} :
    Along (stepAt step) (fun table task => fits (table task.1) task.2) table work ↔
      ∀ key, Along step fits (table key) (addressed key work) := by
  induction work generalizing table with
  | nil => simp [Along, addressed]
  | cons task work ih =>
    rw [Along, ih]
    constructor
    · rintro ⟨fit, rest⟩ key
      have along := rest key
      rw [addressed_cons]
      by_cases same : task.1 = key
      · subst same
        rw [stepAt, update_self] at along
        rw [if_pos rfl]
        exact ⟨fit, along⟩
      · rw [stepAt, update_of_ne (Ne.symm same)] at along
        rw [if_neg same]
        exact along
    · intro each
      have head := each task.1
      rw [addressed_cons, if_pos rfl] at head
      refine ⟨head.1, fun key => ?_⟩
      by_cases same : task.1 = key
      · subst same
        rw [stepAt, update_self]
        exact head.2
      · have along := each key
        rw [addressed_cons, if_neg same] at along
        rw [stepAt, update_of_ne (Ne.symm same)]
        exact along

theorem foldl_stepAt (step : σ → ω → σ) (table : κ → σ) (work : List (κ × ω)) (key : κ) :
    work.foldl (stepAt step) table key = (addressed key work).foldl step (table key) := by
  induction work generalizing table with
  | nil => rfl
  | cons task work ih =>
    rw [List.foldl_cons, ih, addressed_cons]
    by_cases same : task.1 = key
    · subst same
      rw [if_pos rfl, List.foldl_cons, stepAt, update_self]
    · rw [if_neg same, stepAt, update_of_ne (Ne.symm same)]

end Keyed
