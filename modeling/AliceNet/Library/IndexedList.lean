import Mathlib

/-! A list of entries with distinct keys next to the table of their positions, counted from one. -/

namespace IndexedList

open List Function Option

variable {α κ : Type*} {key : α → κ} {values : List α} {indexes : κ → ℕ} {v last : α} {i j : ℕ}
  {k : κ}

/-- The list and the table are inverse to each other. -/
def Indexed (key : α → κ) (values : List α) (indexes : κ → ℕ) : Prop :=
  ∀ k i, indexes k = i + 1 ↔ ∃ v, values[i]? = some v ∧ key v = k

theorem Indexed.nil : Indexed key [] fun _ => 0 := by
  simp [Indexed]

theorem Indexed.index (indexed : Indexed key values indexes) (found : values[i]? = some v) :
    indexes (key v) = i + 1 :=
  (indexed _ _).mpr ⟨v, found, rfl⟩

theorem Indexed.keys_nodup (indexed : Indexed key values indexes) : (values.map key).Nodup := by
  rw [nodup_iff_getElem?_ne_getElem?]
  intro i j less bound same
  rw [length_map] at bound
  have first := indexed.index (getElem?_eq_getElem (less.trans bound))
  have second := indexed.index (getElem?_eq_getElem bound)
  simp only [getElem?_map, getElem?_eq_getElem bound, getElem?_eq_getElem (less.trans bound),
    map_some, some.injEq] at same
  rw [same] at first
  omega

theorem Indexed.index_ne_zero_iff (indexed : Indexed key values indexes) :
    indexes k ≠ 0 ↔ ∃ v ∈ values, key v = k := by
  constructor
  · intro nonzero
    obtain ⟨i, position⟩ := Nat.exists_eq_succ_of_ne_zero nonzero
    obtain ⟨v, found, same⟩ := (indexed k i).mp position
    exact ⟨v, mem_of_getElem? found, same⟩
  · rintro ⟨v, mem, rfl⟩
    obtain ⟨i, found⟩ := mem_iff_getElem?.mp mem
    rw [indexed.index found]
    exact Nat.succ_ne_zero i

variable [DecidableEq κ]

theorem Indexed.push (indexed : Indexed key values indexes) (absent : indexes (key v) = 0) :
    Indexed key (values ++ [v]) (Function.update indexes (key v) (values.length + 1)) := by
  intro k i
  by_cases same : k = key v
  · subst same
    rw [update_self]
    constructor
    · intro position
      obtain rfl : values.length = i := by omega
      exact ⟨v, by simp, rfl⟩
    · rintro ⟨w, found, same⟩
      rcases Nat.lt_trichotomy i values.length with less | rfl | more
      · rw [getElem?_append_left less] at found
        have := indexed.index found
        rw [same, absent] at this
        omega
      · rfl
      · rw [getElem?_eq_none (by simp; omega)] at found
        cases found
  · rw [update_of_ne same, indexed k i]
    refine exists_congr fun w => and_congr_left fun named => ?_
    rcases Nat.lt_trichotomy i values.length with less | rfl | more
    · rw [getElem?_append_left less]
    · have other : v ≠ w := fun equal => same (by rw [equal, named])
      simp [other]
    · rw [getElem?_eq_none (l := values) (by omega),
        getElem?_eq_none (l := values ++ [v]) (by simp; omega)]

/-- The entry at `i` gives way to the last one. -/
def swapPop (values : List α) (i : ℕ) (last : α) : List α :=
  (values.set i last).dropLast

private theorem getElem?_swapPop (bound : i < values.length) :
    (swapPop values i last)[j]? = if j + 1 < values.length then if i = j then some last else
      values[j]? else none := by
  simp only [swapPop, getElem?_dropLast, length_set, getElem?_set]
  grind

theorem swapPop_perm (found : values[i]? = some v) (ends : values.getLast? = some last) :
    (v :: swapPop values i last).Perm values := by
  obtain ⟨front, rfl⟩ := getLast?_eq_some_iff.mp ends
  obtain ⟨bound, rfl⟩ := List.getElem?_eq_some_iff.mp found
  rw [length_append, length_singleton] at bound
  rcases Nat.lt_succ_iff_lt_or_eq.mp bound with less | rfl
  · rw [swapPop, set_append_left _ _ less, dropLast_concat, getElem_append_left less]
    calc front[i] :: front.set i last
      _ |>.Perm (front[i] :: last :: front.eraseIdx i) := (set_perm_cons_eraseIdx less last).cons _
      _ |>.Perm (last :: front[i] :: front.eraseIdx i) := Perm.swap _ _ _
      _ |>.Perm (last :: front) := (getElem_cons_eraseIdx_perm less).cons _
      _ |>.Perm (front ++ [last]) := (perm_append_singleton last front).symm
  · simp only [swapPop, set_append_right front.length last le_rfl, Nat.sub_self, set_cons_zero,
      dropLast_concat, getElem_concat_length]
    exact (perm_append_singleton last front).symm

theorem Indexed.swapPop (indexed : Indexed key values indexes) (found : values[i]? = some v)
    (ends : values.getLast? = some last) :
    Indexed key (swapPop values i last)
      (Function.update (Function.update indexes (key last) (i + 1)) (key v) 0) := by
  have bound := (List.getElem?_eq_some_iff.mp found).1
  have lastFound : values[values.length - 1]? = some last := by rw [← getLast?_eq_getElem?, ends]
  have lastIndex := indexed.index lastFound
  intro k j
  rw [getElem?_swapPop bound]
  by_cases removed : k = key v
  · subst removed
    rw [update_self]
    refine ⟨fun position => by omega, ?_⟩
    rintro ⟨w, there, same⟩
    split_ifs at there with inside here
    · obtain rfl := some.inj there
      rw [same, indexed.index found] at lastIndex
      omega
    · have position := indexed.index there
      rw [same, indexed.index found] at position
      omega
  · rw [update_of_ne removed]
    by_cases moved : k = key last
    · subst moved
      rw [update_self]
      constructor
      · intro position
        obtain rfl : i = j := by omega
        -- the gap is not the last place, where the moved entry itself would have been removed
        have inside : i + 1 < values.length := by
          by_contra outside
          obtain rfl : i = values.length - 1 := by omega
          exact removed (by rw [some.inj (lastFound.symm.trans found)])
        exact ⟨last, by simp [inside], rfl⟩
      · rintro ⟨w, there, same⟩
        split_ifs at there with inside here
        · rw [here]
        · have position := indexed.index there
          rw [same, lastIndex] at position
          omega
    · rw [update_of_ne moved, indexed k j]
      refine exists_congr fun w => and_congr_left fun named => ?_
      split_ifs with inside here
      · subst here
        simp only [found, some.injEq]
        exact ⟨fun equal => absurd (equal ▸ named).symm removed, fun equal =>
          absurd (equal ▸ named).symm moved⟩
      · rfl
      · refine ⟨fun there => ?_, fun impossible => by cases impossible⟩
        obtain rfl : j = values.length - 1 := by
          have := (List.getElem?_eq_some_iff.mp there).1
          omega
        exact absurd (some.inj (lastFound.symm.trans there) ▸ named).symm moved

end IndexedList
