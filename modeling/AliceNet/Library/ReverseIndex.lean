import Mathlib

/-! An index with reverse lookup. -/

universe u

structure ReverseIndex (κ ν ι ρ : Type u) where
  table : κ → Option ν
  refs : ι → Option ρ

namespace ReverseIndex

open Function Option

variable {κ ν ι ρ : Type u}

def empty : ReverseIndex κ ν ι ρ := ⟨fun _ => none, fun _ => none⟩

variable [DecidableEq κ] [DecidableEq ι] (key : ι → ρ → κ) (value : ι → ρ → ν)

def put (index : ReverseIndex κ ν ι ρ) (item : ι) (ref : ρ) : ReverseIndex κ ν ι ρ where
  table := Function.update index.table (key item ref) (some (value item ref))
  refs := Function.update index.refs item (some ref)

/-- Drop an item by what is stored about it; `missing` if nothing is. -/
def drop {ε : Type u} (missing : ε) (index : ReverseIndex κ ν ι ρ) (item : ι) :
    Except ε (ReverseIndex κ ν ι ρ) :=
  match index.refs item with
  | none => .error missing
  | some ref => .ok ⟨Function.update index.table (key item ref) none,
      Function.update index.refs item none⟩

structure Exact (index : ReverseIndex κ ν ι ρ) (items : ι → Option ρ) : Prop where
  refs : index.refs = items
  table : ∀ k v, index.table k = some v ↔ ∃ item ref, items item = some ref ∧ key item ref = k ∧
    value item ref = v
  apart : ∀ item ref item' ref', items item = some ref → items item' = some ref' →
    key item ref = key item' ref' → item = item'

variable {key value} {index index' : ReverseIndex κ ν ι ρ} {items : ι → Option ρ} {item : ι}
  {ref : ρ}

/-- Enter an item if it has a reference. -/
def file (key : ι → ρ → κ) (value : ι → ρ → ν) (index : ReverseIndex κ ν ι ρ) (item : ι)
    (ref : Option ρ) : ReverseIndex κ ν ι ρ :=
  ref.elim index (index.put key value item)

theorem file_comm {ref ref' : Option ρ} (items : item ≠ item')
    (keys : ∀ r ∈ ref, ∀ r' ∈ ref', key item r ≠ key item' r') :
    (index.file key value item ref).file key value item' ref' =
      (index.file key value item' ref').file key value item ref := by
  cases ref with
  | none => rfl
  | some r =>
    cases ref' with
    | none => rfl
    | some r' =>
      simp only [file, elim_some, put, update_comm items, update_comm (keys r rfl r' rfl)]

theorem file_table_eq_none_iff {ref : Option ρ} :
    (index.file key value item ref).table k = none ↔ index.table k = none ∧ ∀ r ∈ ref,
      key item r ≠ k := by
  cases ref with
  | none => simp [file]
  | some r =>
    by_cases same : k = key item r
    · simp [file, put, same]
    · simp [file, put, same, eq_comm]

theorem drop_comm (items : item ≠ item') (first : index.drop key missing item = .ok dropped)
    (second : dropped.drop key missing item' = .ok index') :
    ∃ dropped', index.drop key missing item' = .ok dropped' ∧ dropped'.drop key missing item =
      .ok index' := by
  unfold drop at first
  split at first
  · cases first
  · rename_i ref found
    cases first
    simp only [drop, update_of_ne items.symm] at second ⊢
    split at second
    · cases second
    · rename_i ref' found'
      cases second
      refine ⟨_, rfl, ?_⟩
      simp only [update_of_ne items, found, update_comm items]
      by_cases same : key item ref = key item' ref'
      · rw [same]
      · rw [update_comm same]

omit [DecidableEq κ] [DecidableEq ι] in
theorem Exact.nil : Exact key value (empty : ReverseIndex κ ν ι ρ) fun _ => none where
  refs := rfl
  table := by simp [empty]
  apart := by simp

omit [DecidableEq κ] [DecidableEq ι] in
theorem Exact.table_eq_none_iff (exact : Exact key value index items) :
    index.table k = none ↔ ∀ item ref, items item = some ref → key item ref ≠ k := by
  constructor
  · intro absent item ref found same
    have present := (exact.table k (value item ref)).mpr ⟨item, ref, found, same, rfl⟩
    rw [absent] at present
    cases present
  · intro apart
    cases found : index.table k with
    | none => rfl
    | some v =>
      obtain ⟨item, ref, listed, same, _⟩ := (exact.table k v).mp found
      exact absurd same (apart item ref listed)

theorem Exact.put (exact : Exact key value index items) (absent : items item = none)
    (vacant : ∀ item' ref', items item' = some ref' → key item' ref' ≠ key item ref) :
    Exact key value (index.put key value item ref) (update items item (some ref)) where
  refs := by rw [ReverseIndex.put, exact.refs]
  table := by
    intro k v
    by_cases same : k = key item ref
    · subst same
      simp only [ReverseIndex.put, update_self, some.injEq]
      constructor
      · rintro rfl
        exact ⟨item, ref, by simp, rfl, rfl⟩
      · rintro ⟨item', ref', found, sameKey, rfl⟩
        by_cases own : item' = item
        · subst own
          rw [update_self, some.injEq] at found
          rw [found]
        · rw [update_of_ne own] at found
          exact absurd sameKey (vacant item' ref' found)
    · simp only [ReverseIndex.put, update_of_ne same]
      rw [exact.table]
      refine exists_congr fun item' => exists_congr fun ref' => and_congr_left fun ⟨sameKey, _⟩ =>
        ?_
      by_cases own : item' = item
      · subst own
        rw [absent, update_self, some.injEq]
        refine iff_of_false (by simp) fun sameRef => same ?_
        rw [← sameKey, sameRef]
      · rw [update_of_ne own]
  apart := by
    intro a refA b refB foundA foundB sameKey
    by_cases ownA : a = item <;> by_cases ownB : b = item
    · rw [ownA, ownB]
    · subst ownA
      rw [update_self, some.injEq] at foundA
      rw [update_of_ne ownB] at foundB
      rw [← foundA] at sameKey
      exact absurd sameKey.symm (vacant b refB foundB)
    · subst ownB
      rw [update_self, some.injEq] at foundB
      rw [update_of_ne ownA] at foundA
      rw [← foundB] at sameKey
      exact absurd sameKey (vacant a refA foundA)
    · rw [update_of_ne ownA] at foundA
      rw [update_of_ne ownB] at foundB
      exact exact.apart a refA b refB foundA foundB sameKey

theorem Exact.drop_ok (exact : Exact key value index items) (present : items item = some ref)
    (missing : ε) :
    index.drop key missing item =
      .ok ⟨update index.table (key item ref) none, update index.refs item none⟩ := by
  rw [ReverseIndex.drop, exact.refs, present]

theorem Exact.drop (exact : Exact key value index items)
    (ran : index.drop key missing item = .ok index') :
    (∃ ref, items item = some ref) ∧ Exact key value index' (update items item none) := by
  cases present : items item with
  | none => rw [ReverseIndex.drop, exact.refs, present] at ran; cases ran
  | some ref =>
    rw [exact.drop_ok present] at ran
    cases ran
    refine ⟨⟨ref, rfl⟩, by simp only [exact.refs], fun k v => ?_, ?_⟩
    · by_cases same : k = key item ref
      · subst same
        refine iff_of_false (by simp) ?_
        rintro ⟨item', ref', found, sameKey, _⟩
        by_cases own : item' = item
        · subst own
          rw [update_self] at found
          cases found
        · rw [update_of_ne own] at found
          exact own (exact.apart item' ref' item ref found present sameKey)
      · simp only [update_of_ne same]
        rw [exact.table]
        refine exists_congr fun item' => exists_congr fun ref' => and_congr_left fun ⟨sameKey, _⟩ =>
          ?_
        by_cases own : item' = item
        · subst own
          rw [present, update_self, some.injEq]
          refine iff_of_false (fun sameRef => same ?_) (by simp)
          rw [← sameKey, sameRef]
        · rw [update_of_ne own]
    · intro a refA b refB foundA foundB sameKey
      have ownA : a ≠ item := by rintro rfl; rw [update_self] at foundA; cases foundA
      have ownB : b ≠ item := by rintro rfl; rw [update_self] at foundB; cases foundB
      rw [update_of_ne ownA] at foundA
      rw [update_of_ne ownB] at foundB
      exact exact.apart a refA b refB foundA foundB sameKey

end ReverseIndex
