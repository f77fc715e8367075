import Mathlib

/-! A store whose keys are strings in lexicographic order, and the iterator over a common beginning.
-/

universe u v

/-- The entries in the order of their keys; no two have the same key. -/
structure KeyStore (α : Type u) (β : Type v) [LT α] where
  entries : List (List α × β)
  sorted : entries.Pairwise fun a b => a.1 < b.1

namespace KeyStore

open List

variable {α : Type u} {β : Type v} [DecidableEq α] [LT α] [LE α] [DecidableLT α]
  [Std.IsLinearOrder α] [Std.LawfulOrderLT α]

omit [DecidableEq α] [DecidableLT α] in
theorem starts_of_between {front key tail : List α} (lower : front ≤ key)
    (upper : key ≤ front ++ tail) : front <+: key := by
  induction front generalizing key with
  | nil => exact nil_prefix
  | cons first rest ih =>
    cases key with
    | nil => exact absurd (nil_lt_cons first rest) lower
    | cons head key =>
      rw [cons_le_cons_iff] at lower
      rw [cons_append, cons_le_cons_iff] at upper
      rcases lower with less | ⟨rfl, lower⟩
      · rcases upper with greater | ⟨rfl, _⟩
        · exact absurd greater (Std.Asymm.asymm _ _ less)
        · exact absurd less (Std.Irrefl.irrefl _)
      · rcases upper with greater | ⟨_, upper⟩
        · exact absurd greater (Std.Irrefl.irrefl _)
        · exact (prefix_cons_inj first).mpr (ih lower upper)

/-- `Seek`, then `Next` while `ValidForPrefix`. -/
def scan (store : KeyStore α β) (front : List α) : List (List α × β) :=
  (store.entries.dropWhile fun entry => entry.1 < front).takeWhile fun entry =>
    front.isPrefixOf entry.1

omit [DecidableLT α] in
theorem takeWhile_eq_filter {entries : List (List α × β)}
    (sorted : entries.Pairwise fun a b => a.1 < b.1) (above : ∀ entry ∈ entries, front ≤ entry.1) :
    entries.takeWhile (fun entry => front.isPrefixOf entry.1) = entries.filter fun entry =>
      front.isPrefixOf entry.1 := by
  induction entries with
  | nil => rfl
  | cons entry rest ih =>
    rw [List.pairwise_cons] at sorted
    rw [List.forall_mem_cons] at above
    by_cases starts : front.isPrefixOf entry.1 = true
    · rw [takeWhile_cons_of_pos (by exact starts), filter_cons_of_pos (by exact starts),
        ih sorted.2 above.2]
    · rw [takeWhile_cons_of_neg (by exact starts), filter_cons_of_neg (by exact starts), eq_comm,
        filter_eq_nil_iff]
      intro other mem later
      obtain ⟨tail, same⟩ := isPrefixOf_iff_prefix.mp later
      have upper : entry.1 ≤ front ++ tail := same ▸ List.le_of_lt (sorted.1 other mem)
      exact starts (List.isPrefixOf_iff_prefix.mpr (starts_of_between above.1 upper))

theorem scan_eq_filter (store : KeyStore α β) (front : List α) :
    store.scan front = store.entries.filter fun entry => front.isPrefixOf entry.1 := by
  rw [scan]
  obtain ⟨entries, sorted⟩ := store
  induction entries with
  | nil => rfl
  | cons entry rest ih =>
    by_cases below : entry.1 < front
    · have other : ¬ front.isPrefixOf entry.1 = true := by
        rw [List.isPrefixOf_iff_prefix]
        rintro ⟨tail, same⟩
        exact absurd below (List.not_lt.mpr (same ▸ List.le_append_left))
      rw [dropWhile_cons_of_pos (by simpa using below), filter_cons_of_neg (by exact other)]
      exact ih (List.pairwise_cons.mp sorted).2
    · rw [dropWhile_cons_of_neg (by simpa using below)]
      refine takeWhile_eq_filter sorted (List.forall_mem_cons.mpr ⟨List.not_lt.mp below,
        fun other mem => ?_⟩)
      exact List.le_trans (List.not_lt.mp below)
        (List.le_of_lt ((List.pairwise_cons.mp sorted).1 other mem))

/-- Write an entry in its place, instead of one with the same key. -/
def set (store : KeyStore α β) (key : List α) (value : β) : KeyStore α β where
  entries := store.entries.filter (·.1 < key) ++ (key, value) :: store.entries.filter (key < ·.1)
  sorted := by
    rw [List.pairwise_append, List.pairwise_cons]
    refine ⟨store.sorted.filter _, ⟨fun above listed => ?_, store.sorted.filter _⟩,
      fun below listed other mem => ?_⟩
    · simpa using (List.mem_filter.mp listed).2
    · have less : below.1 < key := by simpa using (List.mem_filter.mp listed).2
      rcases List.mem_cons.mp mem with rfl | above
      · exact less
      · exact List.lt_trans less (by simpa using (List.mem_filter.mp above).2)

theorem mem_set {store : KeyStore α β} {value : β} :
    entry ∈ (store.set key value).entries ↔ entry = (key, value) ∨ entry ∈ store.entries ∧
      entry.1 ≠ key := by
  simp only [set, mem_append, mem_cons, mem_filter, decide_eq_true_eq]
  constructor
  · rintro (⟨listed, less⟩ | rfl | ⟨listed, greater⟩)
    · exact .inr ⟨listed, fun same => List.lt_irrefl _ (same ▸ less)⟩
    · exact .inl rfl
    · exact .inr ⟨listed, fun same => List.lt_irrefl _ (same ▸ greater)⟩
  · rintro (rfl | ⟨listed, other⟩)
    · exact .inr (.inl rfl)
    · by_cases less : entry.1 < key
      · exact .inl ⟨listed, less⟩
      · refine .inr (.inr ⟨listed, ?_⟩)
        by_contra greater
        exact other (List.le_antisymm (List.not_lt.mp greater) (List.not_lt.mp less))

def delete (store : KeyStore α β) (gone : List (List α)) : KeyStore α β :=
  ⟨store.entries.filter (·.1 ∉ gone), store.sorted.filter _⟩

end KeyStore
