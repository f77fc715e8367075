import AliceNet.BadgerTrie.Correctness
import AliceNet.BadgerTrie.Sync

/-! Updates that are not committed, and what `Discard` takes back of them. -/

namespace AliceNet.BadgerTrie

open Outcome

def SMT.NewSMT (db : Bytes32 → Option Batch) (root : Option Bytes32) : SMT :=
  ⟨⟨fun _ => none, db, [[0]]⟩, root, none⟩

/-- `getRootForHeightDB` is the table of the roots that were committed. -/
def SMT.NewSMTForHeight (db : Bytes32 → Option Batch)
    (getRootForHeightDB : ℕ → Except Error (Option Bytes32)) (height : ℕ) : Except Error SMT := do
  pure (NewSMT db (← getRootForHeightDB height))

def SMT.Discard (s : SMT) [Decidable (∃ word, s.db.updatedNodes word ≠ none)] : SMT :=
  if ∃ word, s.db.updatedNodes word ≠ none then
    { s with db := { s.db with updatedNodes := fun _ => none }, root := s.prevRoot }
  else s

/-- The trie after updates and commits, and as it was at the last commit or at the opening. -/
inductive Session (hash : Bytes → Bytes32) (r : Option Bytes32) : (committed : Bool) →
  (last s : SMT) → Prop
  | new (db : Bytes32 → Option Batch) : Session hash r false (.NewSMT db r) (.NewSMT db r)
  | forHeight (opened : SMT.NewSMTForHeight db getRootForHeightDB height = .ok s) (root : s.root =
      r) :
      Session hash r false s s
  | update (session : Session hash r committed last s) (ran : SMT.Update hash s kvs = .ok s') :
      Session hash r committed last s'
  | commit (session : Session hash r committed last s) : Session hash r true s.Commit s.Commit

section

variable {hash : Bytes → Bytes32} {r : Option Bytes32} {last s s' : SMT}

private theorem loadChildren_congr (same : ∀ word, loadBatch db word = loadBatch db' word) :
    loadChildren db root n i batch = loadChildren db' root n i batch := by
  simp only [loadChildren, same]

private theorem get_congr (same : ∀ word, loadBatch db word = loadBatch db' word) :
    get db n root key batch i = get db' n root key batch i := by
  induction n generalizing root batch i with
  | zero =>
    cases root with
    | none => rfl
    | some root => simp only [get, loadChildren_congr same]
  | succ n ih =>
    cases root with
    | none => rfl
    | some root => simp only [get, loadChildren_congr same, ih]

theorem Update_frame (ran : SMT.Update hash s kvs = .ok s') :
    s'.db.db = s.db.db ∧ s'.prevRoot = s.prevRoot := by
  obtain ⟨_, result, updated, rfl⟩ := Update_ok ran
  exact ⟨(update_log _ _ _ _ _ _ _ updated).1, rfl⟩

/-- What the session remembers of its last commit -/
structure Remembers (r : Option Bytes32) (committed : Bool) (last s : SMT) : Prop where
  stored : s.db.db = last.db.db
  clean : last.db.updatedNodes = fun _ => none
  prevRoot : s.prevRoot = if committed then last.root else none
  opened : committed = false → last.root = r

theorem Session.remembers (session : Session hash r committed last s) :
    Remembers r committed last s := by
  induction session with
  | new db => exact ⟨rfl, rfl, rfl, fun _ => rfl⟩
  | forHeight opened root =>
    simp only [SMT.NewSMTForHeight, ok_iff] at opened
    obtain ⟨word, _, rfl⟩ := opened
    exact ⟨rfl, rfl, rfl, fun _ => root⟩
  | update _ ran ih =>
    obtain ⟨stored, prevRoot⟩ := Update_frame ran
    exact ⟨stored.trans ih.stored, ih.clean, prevRoot.trans ih.prevRoot, ih.opened⟩
  | commit _ ih => exact ⟨rfl, rfl, rfl, nofun⟩

theorem Remembers.get_eq (remembers : Remembers r committed last s) (discarded : s'.db.db = s.db.db)
    (clean : s'.db.updatedNodes = fun _ => none) (root : s'.root = last.root) (key : Bytes32) :
    s'.Get key = last.Get key := by
  have same : ∀ word, loadBatch s'.db word = loadBatch last.db word := by
    intro word
    simp only [loadBatch, clean, discarded, remembers.stored, remembers.clean]
  rw [SMT.Get, SMT.Get, SMT.rootNode, SMT.rootNode, root]
  exact get_congr same

/-- Exactly when `Discard` takes the trie back to its last commit: nodes were updated and the
previous root is known, or no node was and the root is still the same. -/
theorem Session.discard_iff (session : Session hash r committed last s)
    [Decidable (∃ word, s.db.updatedNodes word ≠ none)] :
    (s.Discard.root = last.root ∧ ∀ key, s.Discard.Get key = last.Get key) ↔
      if ∃ word, s.db.updatedNodes word ≠ none then committed = true ∨ r = none else
        s.root = last.root := by
  have remembers := session.remembers
  by_cases updated : ∃ word, s.db.updatedNodes word ≠ none
  · rw [SMT.Discard, if_pos updated, if_pos updated]
    have root : s.prevRoot = last.root ↔ committed = true ∨ r = none := by
      rw [remembers.prevRoot]
      cases committed with
      | true => simp
      | false => simp [← remembers.opened rfl, eq_comm]
    rw [← root]
    exact ⟨And.left, fun same => ⟨same, remembers.get_eq rfl rfl same⟩⟩
  · rw [SMT.Discard, if_neg updated, if_neg updated]
    have clean : s.db.updatedNodes = fun _ => none := by
      funext word
      by_contra filed
      exact updated ⟨word, filed⟩
    exact ⟨And.left, fun same => ⟨same, remembers.get_eq rfl clean same⟩⟩

end

/-- Two keys are stored, and the trie is updated after `reopen`. -/
def reopenedRun (reopen : SMT → SMT) : Except Error (SMT × SMT) := do
  let s ← SMT.Update sampleHash SMT.new firstBatch
  pure (reopen s, ← SMT.Update sampleHash (reopen s) secondBatch)

/-- There was a root, and the update has added a node. -/
def Overwritten (p : SMT × SMT) : Bool :=
  p.1.root.isSome && (p.2.root.bind p.2.db.updatedNodes).isSome

theorem Overwritten.exists (overwritten : Overwritten p = true) :
    (∃ r, p.1.root = some r) ∧ ∃ word, p.2.db.updatedNodes word ≠ none := by
  simp only [Overwritten, Bool.and_eq_true, Option.isSome_iff_exists,
    Option.bind_eq_some_iff] at overwritten
  obtain ⟨some, node, word, _, filed⟩ := overwritten
  exact ⟨some, word, by simp [filed]⟩

theorem Session.discard_committed :
    ∃ r last s, Session sampleHash none true last s ∧ last.root = some r ∧
    ∀ [Decidable (∃ word, s.db.updatedNodes word ≠ none)],
      s.Discard.root = last.root ∧ ∀ key, s.Discard.Get key = last.Get key := by
  have run : (reopenedRun SMT.Commit >>= fun p => pure (Overwritten p)) =
    .ok true := by decide +kernel
  simp only [reopenedRun, ok_iff] at run
  obtain ⟨_, ⟨s, first, s', second, rfl⟩, overwritten⟩ := run
  obtain ⟨⟨r, root⟩, updated⟩ := Overwritten.exists overwritten
  have session : Session sampleHash none true s.Commit s' :=
    (((Session.new fun _ => none).update first).commit).update second
  exact ⟨r, s.Commit, s', session, root,
    session.discard_iff.mpr (by rw [if_pos updated]; exact .inl rfl)⟩

/-- A trie that was opened at a root forgets the root. -/
theorem discard_loses_root :
    ∃ r last s, Session sampleHash (some r) false last s ∧ last.root = some r ∧
    ∀ [Decidable (∃ word, s.db.updatedNodes word ≠ none)], s.Discard.root = none := by
  have run : (reopenedRun (fun s => SMT.NewSMT s.Commit.db.db s.root) >>= fun p =>
      pure (Overwritten p)) = .ok true := by
    decide +kernel
  simp only [reopenedRun, ok_iff] at run
  obtain ⟨_, ⟨s, first, s', second, rfl⟩, overwritten⟩ := run
  obtain ⟨⟨r, root⟩, updated⟩ := Overwritten.exists overwritten
  have opened : s.root = some r := root
  rw [opened] at second
  refine ⟨r, _, s', (Session.new _).update second, rfl, ?_⟩
  intro
  rw [SMT.Discard, if_pos updated]
  exact (Update_frame second).2

end AliceNet.BadgerTrie
