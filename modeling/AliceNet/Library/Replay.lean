import Mathlib

/-! A table that is written by a log, part of which may be played again. -/

namespace Replay

inductive Write (κ ν : Type*)
  | put (key : κ) (value : ν)
  | drop (key : κ)
  | skip

namespace Write

variable {κ ν : Type*} [DecidableEq κ]

def apply (table : κ → Option ν) : Write κ ν → κ → Option ν
  | .put key value => Function.update table key (some value)
  | .drop key => Function.update table key none
  | .skip => table

/-- An entry that is dropped is there. -/
def Fits (table : κ → Option ν) : Write κ ν → Prop
  | .drop key => table key ≠ none
  | _ => True

def Touches (key : κ) : Write κ ν → Prop
  | .put key' _ => key' = key
  | .drop key' => key' = key
  | .skip => False

end Write

variable {κ ν : Type*} [DecidableEq κ] {write : Write κ ν} {log done later : List (Write κ ν)}
  {actual expected : κ → Option ν} {key : κ}

def run (log : List (Write κ ν)) (table : κ → Option ν) : κ → Option ν :=
    log.foldl Write.apply table

theorem run_append (done later : List (Write κ ν)) (table : κ → Option ν) :
    run (done ++ later) table = run later (run done table) :=
  List.foldl_append

def Fitting : List (Write κ ν) → (κ → Option ν) → Prop
  | [], _ => True
  | write :: rest, table => write.Fits table ∧ Fitting rest (write.apply table)

theorem Fitting.append :
    Fitting (done ++ later) expected ↔ Fitting done expected ∧
      Fitting later (run done expected) := by
  induction done generalizing expected with
  | nil => simp [Fitting, run]
  | cons write rest ih =>
    rw [List.cons_append, Fitting, Fitting, ih, and_assoc]
    rfl

omit [DecidableEq κ] in
theorem Write.not_touches_cons :
    (∀ w ∈ write :: later, ¬ w.Touches key) ↔ ¬ write.Touches key ∧ ∀ w ∈ later,
      ¬ w.Touches key := by
  simp

theorem Write.apply_untouched (untouched : ¬ write.Touches key) :
    write.apply expected key = expected key := by
  cases write with
  | put key' value => exact Function.update_of_ne (Ne.symm untouched) ..
  | drop key' => exact Function.update_of_ne (Ne.symm untouched) ..
  | skip => rfl

theorem Write.apply_touched (touched : write.Touches key) (table table' : κ → Option ν) :
    write.apply table key = write.apply table' key := by
  cases write with
  | put key' value =>
    subst touched
    simp [Write.apply]
  | drop key' =>
    subst touched
    simp [Write.apply]
  | skip => cases touched

private theorem run_untouched (untouched : ∀ w ∈ log, ¬ w.Touches key) :
    run log expected key = expected key := by
  induction log generalizing expected with
  | nil => rfl
  | cons write rest ih =>
    obtain ⟨first, others⟩ := Write.not_touches_cons.mp untouched
    exact (ih others).trans (Write.apply_untouched first)

/-- The table differs from what is expected only where the rest of the log still writes. -/
structure Ahead (later : List (Write κ ν)) (actual expected : κ → Option ν) : Prop where
  present : ∀ key, expected key ≠ none → actual key ≠ none
  same : ∀ key, (∀ w ∈ later, ¬ w.Touches key) → actual key = expected key

omit [DecidableEq κ] in
theorem Ahead.refl (later : List (Write κ ν)) (table : κ → Option ν) : Ahead later table table :=
  ⟨fun _ found => found, fun _ _ => rfl⟩

omit [DecidableEq κ] in
theorem Ahead.fits (ahead : Ahead later actual expected) (fits : write.Fits expected) :
    write.Fits actual := by
  cases write with
  | put key value => trivial
  | drop key => exact ahead.present key fits
  | skip => trivial

theorem Ahead.step (ahead : Ahead (write :: later) actual expected) :
    Ahead later (write.apply actual) (write.apply expected) where
  present := by
    intro key found
    by_cases touched : write.Touches key
    · rwa [Write.apply_touched touched actual expected]
    · rw [Write.apply_untouched touched] at found ⊢
      exact ahead.present key found
  same := by
    intro key untouched
    by_cases touched : write.Touches key
    · exact Write.apply_touched touched actual expected
    · rw [Write.apply_untouched touched, Write.apply_untouched touched]
      exact ahead.same key (Write.not_touches_cons.mpr ⟨touched, untouched⟩)

theorem Ahead.run (ahead : Ahead (done ++ later) actual expected) :
    Ahead later (run done actual) (run done expected) := by
  induction done generalizing actual expected with
  | nil => exact ahead
  | cons write rest ih => exact ih ahead.step

theorem Ahead.rewind (ahead : Ahead later actual (Replay.run done expected))
    (kept : ∀ key, expected key ≠ none → Replay.run done expected key ≠ none) :
    Ahead (done ++ later) actual expected where
  present := fun key found => ahead.present key (kept key found)
  same := by
    intro key untouched
    have untouchedLater : ∀ w ∈ later, ¬ w.Touches key := fun w mem =>
      untouched w (List.mem_append_right _ mem)
    rw [ahead.same key untouchedLater]
    exact run_untouched fun w mem => untouched w (List.mem_append_left _ mem)

end Replay
