import Mathlib

/-! Tables in the order of their keys, and iterators over them. -/

universe u

structure SortedTable (ι : Type u) (key : ι → ℕ) where
  entries : List ι
  sorted : entries.Pairwise fun a b => key a < key b

namespace SortedTable

open List

variable {ι : Type u} {key : ι → ℕ} (table : SortedTable ι key)

def seek (start : ℕ) : List ι :=
  table.entries.dropWhile fun entry => key entry < start

def after (start : ℕ) : List ι :=
  table.entries.filter fun entry => start < key entry

variable {table}

private theorem dropWhile_eq_filter {entries : List ι}
    (sorted : entries.Pairwise fun a b => key a < key b) (start : ℕ) :
    entries.dropWhile (fun entry => key entry < start) = entries.filter fun entry =>
      start ≤ key entry := by
  induction entries with
  | nil => rfl
  | cons entry rest ih =>
    rw [pairwise_cons] at sorted
    by_cases below : key entry < start
    · rw [dropWhile_cons_of_pos (by simpa using below), filter_cons_of_neg (by simpa using below),
        ih sorted.2]
    · have above : ∀ other ∈ entry :: rest, start ≤ key other := by
        rw [forall_mem_cons]
        exact ⟨Nat.le_of_not_lt below, fun other mem => by have := sorted.1 other mem; omega⟩
      rw [dropWhile_cons_of_neg (by simpa using below)]
      exact (filter_eq_self.mpr fun other mem => by simpa using above other mem).symm

theorem seek_eq_filter (start : ℕ) :
    table.seek start = table.entries.filter fun entry => start ≤ key entry :=
  dropWhile_eq_filter table.sorted start

theorem after_append {entry : ι} (split : table.entries = below ++ entry :: above) :
    table.after (key entry) = above := by
  have sorted := table.sorted
  rw [split, pairwise_append] at sorted
  obtain ⟨_, upper, across⟩ := sorted
  rw [pairwise_cons] at upper
  have lower : below.filter (fun other => key entry < key other) = [] :=
    filter_eq_nil_iff.mpr fun other mem => by
      have := across other mem entry mem_cons_self
      simp only [decide_eq_true_eq]
      omega
  have greater : above.filter (fun other => key entry < key other) = above :=
    filter_eq_self.mpr fun other mem => by simpa using upper.1 other mem
  rw [after, split, filter_append, lower, filter_cons_of_neg (by simp), greater, nil_append]

theorem after_suffix (start : ℕ) : ∃ below, table.entries = below ++ table.after start := by
  have seek : table.after start = table.seek (start + 1) := by
    rw [seek_eq_filter]
    rfl
  rw [seek]
  exact ⟨_, (takeWhile_append_dropWhile).symm⟩

def restrict (table : SortedTable ι key) (kind : ι → Bool) : SortedTable ι key :=
  ⟨table.entries.filter kind, table.sorted.filter kind⟩

theorem after_restrict (kind : ι → Bool) (start : ℕ) :
    (table.restrict kind).after start = (table.after start).filter kind :=
  filter_comm ..

theorem after_last {entry : ι} (split : table.after start = front ++ rest)
    (last : front.getLast? = some entry) : table.after (key entry) = rest := by
  obtain ⟨below, entries⟩ := table.after_suffix start
  obtain ⟨init, rfl⟩ := getLast?_eq_some_iff.mp last
  refine @after_append _ _ table (below ++ init) rest entry ?_
  rw [entries, split]
  simp

theorem seek_of_mem (mem : entry ∈ table.entries) :
    table.seek (key entry) = entry :: table.after (key entry) := by
  obtain ⟨below, above, split⟩ := append_of_mem mem
  have sorted := table.sorted
  rw [split, pairwise_append] at sorted
  rw [after_append split, seek, split, dropWhile_append_of_pos]
  · rw [dropWhile_cons_of_neg (by simp)]
  · intro other mem
    simpa using sorted.2.2 other mem entry mem_cons_self

theorem seek_of_absent (absent : ∀ entry ∈ table.entries, key entry ≠ start) :
    table.seek start = table.after start := by
  rw [seek_eq_filter, after]
  refine filter_congr fun entry mem => ?_
  have := absent entry mem
  simp only [decide_eq_decide]
  omega

theorem nodup (table : SortedTable ι key) : table.entries.Nodup :=
  table.sorted.imp fun less same => by
    rw [same] at less
    exact lt_irrefl _ less

def empty : SortedTable ι key := ⟨[], .nil⟩

/-- Put an entry in its place, instead of one with the same key. -/
def insert (table : SortedTable ι key) (entry : ι) : SortedTable ι key where
  entries := table.entries.filter (fun other => key other < key entry) ++ entry ::
    table.after (key entry)
  sorted := by
    rw [List.pairwise_append, List.pairwise_cons]
    refine ⟨table.sorted.filter _, ⟨fun above listed => ?_, table.sorted.filter _⟩,
      fun below listed other mem => ?_⟩
    · simpa using (List.mem_filter.mp listed).2
    · have less : key below < key entry := by simpa using (List.mem_filter.mp listed).2
      rcases List.mem_cons.mp mem with rfl | above
      · exact less
      · exact less.trans (by simpa using (List.mem_filter.mp above).2)

/-- Delete the entry with the key of this one. -/
def erase (table : SortedTable ι key) (entry : ι) : SortedTable ι key :=
  table.restrict fun other => key other ≠ key entry

section

variable (distinct : Function.Injective key)

include distinct

theorem mem_insert :
    other ∈ (table.insert entry).entries ↔ other = entry ∨ other ∈ table.entries := by
  simp only [insert, after, mem_append, mem_cons, mem_filter, decide_eq_true_eq]
  constructor
  · rintro (⟨listed, _⟩ | rfl | ⟨listed, _⟩)
    · exact .inr listed
    · exact .inl rfl
    · exact .inr listed
  · rintro (rfl | listed)
    · exact .inr (.inl rfl)
    · rcases lt_trichotomy (key other) (key entry) with less | same | greater
      · exact .inl ⟨listed, less⟩
      · exact .inr (.inl (distinct same))
      · exact .inr (.inr ⟨listed, greater⟩)

theorem insert_perm (absent : entry ∉ table.entries) :
    (table.insert entry).entries.Perm (entry :: table.entries) := by
  rw [perm_ext_iff_of_nodup (nodup _) (nodup_cons.mpr ⟨absent, table.nodup⟩)]
  intro other
  rw [mem_insert distinct, mem_cons]

theorem mem_erase :
    other ∈ (table.erase entry).entries ↔ other ∈ table.entries ∧ other ≠ entry := by
  rw [erase, restrict, mem_filter, decide_eq_true_iff, Ne, distinct.eq_iff]

theorem entries_foldl_erase [DecidableEq ι] (gone : List ι) :
    (gone.foldl erase table).entries = table.entries.filter fun entry => entry ∉ gone := by
  induction gone generalizing table with
  | nil => simp
  | cons first rest ih =>
    rw [foldl_cons, ih, erase, restrict, filter_filter]
    refine filter_congr fun entry _ => ?_
    simp only [Ne, distinct.eq_iff, mem_cons, not_or, Bool.decide_and, Bool.and_comm]

end

end SortedTable
