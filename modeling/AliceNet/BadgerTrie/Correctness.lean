import AliceNet.BadgerTrie.Refinement

/-! Runs of `SMT.Update`, and the map that the trie represents after each of them. -/

namespace AliceNet.BadgerTrie

open SparseTrie MerkleTrie Outcome

/-- The trie after any updates that succeed. -/
inductive Run (hash : Bytes → Bytes32) : SMT → Prop
  | new : Run hash SMT.new
  | update (run : Run hash s) (ran : SMT.Update hash s kvs = .ok s') : Run hash s'

inductive Reachable (hash : Bytes → Bytes32) : SMT → (Bytes32 → Option Bytes32) → Prop
  | new : Reachable hash SMT.new fun _ => none
  | update (reached : Reachable hash s map) (sorted : Sorted kvs)
      (separated : Separated hash map kvs)
      (ran : SMT.Update hash s kvs = .ok s') : Reachable hash s' (applyKVs hash kvs map)

/-- Updates whose deletions are separated and commits, with the map that they leave. -/
inductive Grown (hash : Bytes → Bytes32) : SMT → (Bytes32 → Option Bytes32) → Prop
  | new : Grown hash SMT.new fun _ => none
  | update (grown : Grown hash s map) (sorted : Sorted kvs) (separated : Separated hash map kvs)
      (ran : SMT.Update hash s kvs = .ok s') : Grown hash s' (applyKVs hash kvs map)
  | commit (grown : Grown hash s map) : Grown hash s.Commit map

inductive Edited (hash : Bytes → Bytes32) : SMT → (Bytes32 → Option Bytes32) → Prop
  | new : Edited hash SMT.new fun _ => none
  | update (edited : Edited hash s map) (kv : KV) (ran : SMT.Update hash s [kv] = .ok s') :
      Edited hash s' (applyKVs hash [kv] map)

/-- The cache and the root are those of an abstract trie. -/
structure Backed (hash : Bytes → Bytes32) (hashed : Set Bytes) (s : SMT) (t : Tree) : Prop where
  sound : Sound hash hashed s.db
  represents : Represents hash hashed s.db TrieHeight t
  root : s.root = (ref hash TrieHeight t).map Node.word

/-- The abstract trie is compact and holds the map. -/
structure Holds (hash : Bytes → Bytes32) (t : Tree) (map : Bytes32 → Option Bytes32) : Prop where
  canonical : Canonical bitIsSet TrieHeight 0 t
  contents : ∀ key, lookup bitIsSet 0 t key = map key
  genuine : ∀ key, map key ≠ some (DefaultLeaf hash)

section

variable {hash : Bytes → Bytes32} {hashed : Set Bytes} {s s' : SMT} {map : Bytes32 → Option Bytes32}

theorem Backed.placed (backed : Backed hash hashed s t) :
    Placed hash TrieHeight t s.rootNode Batch.default 0 := by
  refine ⟨?_, fun inner => absurd rfl inner⟩
  rw [SMT.rootNode, backed.root]
  cases t <;> rfl

theorem Backed.get (backed : Backed hash hashed s t) (inj : Set.InjOn hash hashed) (key : Bytes32) :
    s.Get key = .ok (lookup bitIsSet 0 t key) :=
  get_eq_lookup inj backed.sound (Nat.le_refl _) backed.represents backed.placed key

theorem Holds.task (holds : Holds hash t map) (sorted : Sorted kvs)
    (separated : Separated hash map kvs) : Task hash TrieHeight t kvs where
  genuine := by
    rintro ⟨key, value⟩ mem default
    refine holds.genuine key ?_
    rw [← holds.contents, ← (show value = DefaultLeaf hash from default)]
    exact holds.canonical.lookup_of_mem mem
  sorted := sorted
  within := fun a _ b _ => Agree.all a.key b.key
  near := fun key _ kv _ => Agree.all key kv.key
  safe := by
    refine safe_of_separated separated (Nat.le_refl _) (fun _ mem => mem) holds.canonical
      (fun a _ b _ => Agree.all a.key b.key) fun key present _ _ _ => ?_
    by_contra absent
    refine present ?_
    rw [← holds.contents]
    exact holds.canonical.lookup_eq_none_iff.mpr absent

private theorem update_nil :
    update hash n db root [] batch i =
      .error (.new "length of keys or values should not be zero") := by
  cases n <;> rfl

section

variable (ran : SMT.Update hash s kvs = .ok s')

include ran

theorem Update_ok :
    kvs ≠ [] ∧ ∃ result, update hash TrieHeight s.db s.rootNode kvs Batch.default 0 = .ok result ∧
      s' = { s with db := result.db, root := result.update.map Node.word } := by
  simp only [SMT.Update, ok_iff] at ran
  obtain ⟨_, _, _, _, result, updated, rfl⟩ := ran
  refine ⟨?_, result, updated, rfl⟩
  rintro rfl
  cases updated

theorem Update_checked :
    (kvs.map KV.key).Nodup ∧ ∀ kv ∈ kvs, ∃ found, s.Get kv.key = .ok found ∧
      if kv.value = DefaultLeaf hash then found ≠ none else ∀ value, found = some value →
        value = kv.value := by
  simp only [SMT.Update, ok_iff] at ran
  obtain ⟨_, distinct, _, checked, _⟩ := ran
  refine ⟨distinct, fun kv mem => ?_⟩
  have passed := forM_ok_iff.mp checked kv mem
  simp only [SMT.checkKV, bind_ok_iff] at passed
  obtain ⟨found, got, passed⟩ := passed
  refine ⟨found, got, ?_⟩
  split
  · rename_i deleted
    rw [if_pos deleted] at passed
    rintro rfl
    cases passed
  · rename_i kept
    rw [if_neg kept] at passed
    rintro value rfl
    by_contra differs
    simp [differs] at passed

theorem Update_log : s.db.hashed ⊆ s'.db.hashed := by
  obtain ⟨_, result, updated, rfl⟩ := Update_ok ran
  exact (update_log _ _ _ _ _ _ _ updated).2

end

theorem Backed.update (backed : Backed hash hashed s t) (inj : Set.InjOn hash hashed)
    (zero : [0] ∈ hashed) (ran : SMT.Update hash s kvs = .ok s')
    (log : ∀ input ∈ s'.db.hashed, input ∈ hashed) :
    ∃ t', Backed hash hashed s' t' ∧ (∀ map, Holds hash t map → Sorted kvs →
      Separated hash map kvs →
      Holds hash t' (applyKVs hash kvs map)) := by
  obtain ⟨nonempty, result, updated, rfl⟩ := Update_ok ran
  obtain ⟨t', built, refines⟩ := update_correct inj zero (Nat.le_refl _) _ _ _ _ _ _ _ backed.sound
    backed.represents backed.placed (fun inner => absurd rfl inner) updated log
  refine ⟨t', ⟨built.sound, built.represents, by rw [built.update]⟩,
    fun map holds sorted separated => ?_⟩
  have refined := refines holds.canonical (holds.task sorted separated) nonempty
  refine ⟨refined.canonical, fun key => ?_, applyKVs_ne_default holds.genuine kvs⟩
  have found := refined.applied key
  rw [Nat.sub_self] at found
  rw [found]
  exact applyKVs_congr (holds.contents key)

theorem Backed.new (zero : [0] ∈ hashed) : Backed hash hashed SMT.new .empty := by
  refine ⟨?_, .empty zero _ _, rfl⟩
  intro word batch loaded
  cases loaded

theorem Run.hashed_zero (run : Run hash s) : [0] ∈ s.db.hashed := by
  induction run with
  | new => simp [SMT.new]
  | update _ ran ih => exact Update_log ran ih

theorem Run.backed (run : Run hash s) (inj : Set.InjOn hash hashed)
    (log : ∀ input ∈ s.db.hashed, input ∈ hashed) : ∃ t, Backed hash hashed s t := by
  have zero : [0] ∈ hashed := log _ run.hashed_zero
  induction run with
  | new => exact ⟨.empty, .new zero⟩
  | update _ ran ih =>
    obtain ⟨t, backed⟩ := ih fun input mem => log input (Update_log ran mem)
    obtain ⟨t', backed', _⟩ := backed.update inj zero ran log
    exact ⟨t', backed'⟩

private theorem loadBatch_commit (s : SMT) (word : Bytes32) :
    loadBatch s.Commit.db word = loadBatch s.db word := by
  simp only [loadBatch, SMT.Commit]
  cases s.db.updatedNodes word <;> rfl

theorem Backed.commit (backed : Backed hash hashed s t) : Backed hash hashed s.Commit t := by
  refine ⟨fun word batch loaded => backed.sound word batch ?_,
    backed.represents.mono fun word filed => ?_, backed.root⟩
  · rwa [loadBatch_commit] at loaded
  · obtain ⟨batch, loaded⟩ := filed
    exact ⟨batch, by rwa [loadBatch_commit]⟩

theorem Grown.hashed_zero (grown : Grown hash s map) : [0] ∈ s.db.hashed := by
  induction grown with
  | new => simp [SMT.new]
  | update _ _ _ ran ih => exact Update_log ran ih
  | commit _ ih => exact ih

theorem Grown.holds (grown : Grown hash s map) (inj : Set.InjOn hash hashed)
    (log : ∀ input ∈ s.db.hashed, input ∈ hashed) :
    ∃ t, Backed hash hashed s t ∧ Holds hash t map := by
  have zero : [0] ∈ hashed := log _ grown.hashed_zero
  induction grown with
  | new => exact ⟨.empty, .new zero, .empty, fun _ => rfl, fun _ => by simp⟩
  | update _ sorted separated ran ih =>
    obtain ⟨t, backed, holds⟩ := ih fun input mem => log input (Update_log ran mem)
    obtain ⟨t', backed', refines⟩ := backed.update inj zero ran log
    exact ⟨t', backed', refines _ holds sorted separated⟩
  | commit _ ih =>
    obtain ⟨t, backed, holds⟩ := ih log
    exact ⟨t, backed.commit, holds⟩

theorem Reachable.grown (reached : Reachable hash s map) : Grown hash s map := by
  induction reached with
  | new => exact .new
  | update _ sorted separated ran ih => exact .update ih sorted separated ran

/-- After any run of separated updates a lookup returns what the updates say about its key. -/
theorem reachable_get (reached : Reachable hash s map)
    (collisionFree : Set.InjOn hash { input | input ∈ s.db.hashed }) (key : Bytes32) :
    s.Get key = .ok (map key) := by
  obtain ⟨t, backed, holds⟩ := reached.grown.holds collisionFree fun _ mem => mem
  rw [← holds.contents]
  exact backed.get collisionFree key

theorem Edited.reachable (edited : Edited hash s map) : Reachable hash s map := by
  induction edited with
  | new => exact .new
  | update _ kv ran ih =>
    refine ih.update (List.pairwise_singleton _ kv) ?_ ran
    intro s first _ a second below
    rw [List.mem_singleton.mp first, List.mem_singleton.mp second] at below
    exact absurd below (BitVec.lt_irrefl _)

theorem Backed.root_eq_none_iff (backed : Backed hash hashed s t) (holds : Holds hash t map) :
    s.root = none ↔ ∀ key, map key = none := by
  rw [backed.root, Option.map_eq_none_iff]
  constructor
  · intro nil key
    have empty : t = .empty := by
      cases t with
      | empty => rfl
      | leaf | node => cases nil
    rw [← holds.contents, empty]
    rfl
  · intro empty
    rw [holds.canonical.eq_empty fun key => (holds.contents key).trans (empty key)]
    rfl

/-- The root depends on the map alone, not on the updates that led to it, and is `nil` for the empty
map only. -/
theorem Edited.root_eq (edited : Edited hash s map) (edited' : Edited hash s' map)
    (collisionFree : Set.InjOn hash { input | input ∈ s.db.hashed })
    (collisionFree' : Set.InjOn hash { input | input ∈ s'.db.hashed }) :
    s.root = s'.root ∧ (s.root = none ↔ ∀ key, map key = none) := by
  obtain ⟨t, backed, holds⟩ := edited.reachable.grown.holds collisionFree fun _ mem => mem
  obtain ⟨t', backed', holds'⟩ := edited'.reachable.grown.holds collisionFree' fun _ mem => mem
  have same : t = t' := holds.canonical.unique holds'.canonical fun key => by rw [holds.contents,
    holds'.contents]
  refine ⟨?_, backed.root_eq_none_iff holds⟩
  rw [backed.root, backed'.root, same]

end

def sampleHash (input : Bytes) : Bytes32 :=
  BitVec.ofNat 256 (input.foldl (fun acc byte => acc * 257 + byte.toNat + 1) 7)

def sampleKey (n : ℕ) : Bytes32 :=
  BitVec.ofNat 256 (n * 2 ^ 251)

def firstBatch : List KV :=
  [⟨sampleKey 0b01010, 12⟩, ⟨sampleKey 0b10000, 14⟩]

/-- The first key is deleted, and no key of the batch is smaller. -/
def secondBatch : List KV :=
  [⟨sampleKey 0b01010, DefaultLeaf sampleHash⟩, ⟨sampleKey 0b11001, 16⟩]

def sampleRun : Except Error SMT := do
  let s ← SMT.Update sampleHash SMT.new firstBatch
  SMT.Update sampleHash s secondBatch

def CollisionFree (hash : Bytes → Bytes32) (s : SMT) : Prop :=
  ∀ a ∈ s.db.hashed, ∀ b ∈ s.db.hashed, hash a = hash b → a = b

instance (hash : Bytes → Bytes32) (s : SMT) : Decidable (CollisionFree hash s) :=
  inferInstanceAs (Decidable (∀ a ∈ s.db.hashed, ∀ b ∈ s.db.hashed, hash a = hash b → a = b))

theorem CollisionFree.injOn {hash : Bytes → Bytes32} (free : CollisionFree hash s) :
    Set.InjOn hash { input | input ∈ s.db.hashed } :=
  fun a first b second same => free a first b second same

theorem sampleRun_free :
    (sampleRun >>= fun s => pure (decide (CollisionFree sampleHash s))) = .ok true := by
  decide +kernel

theorem firstBatch_separated : Separated sampleHash map firstBatch := by
  intro s mem deleted
  have kept : ∀ kv ∈ firstBatch, kv.value ≠ DefaultLeaf sampleHash := by decide
  exact absurd deleted (kept s mem)

theorem secondBatch_separated : Separated sampleHash map secondBatch := by
  intro s mem deleted a first below
  have smallest : ∀ s ∈ secondBatch, s.value = DefaultLeaf sampleHash → ∀ a ∈ secondBatch,
      ¬ a.key < s.key := by
    decide
  exact absurd below (smallest s mem deleted a first)

theorem reachable_get_sample : ∃ s map, Reachable sampleHash s map ∧
    s.Get (sampleKey 0b01010) = .ok none ∧ s.Get (sampleKey 0b11001) = .ok (some 16) := by
  obtain ⟨s', run, free⟩ := bind_ok_iff.mp sampleRun_free
  obtain ⟨s, first, second⟩ := bind_ok_iff.mp run
  have reached :=
    (Reachable.new.update (by unfold Sorted; decide) firstBatch_separated first).update
    (by unfold Sorted; decide) secondBatch_separated second
  have inj := CollisionFree.injOn (of_decide_eq_true (pure_ok_iff.mp free))
  refine ⟨s', _, reached, ?_, ?_⟩
  · rw [reachable_get reached inj]
    decide
  · rw [reachable_get reached inj]
    decide

/-- A key is inserted and deleted again on the way. -/
def longRun : Except Error SMT := do
  let s ← SMT.Update sampleHash SMT.new [⟨sampleKey 0b01010, 12⟩]
  let s ← SMT.Update sampleHash s [⟨sampleKey 0b01100, 13⟩]
  SMT.Update sampleHash s [⟨sampleKey 0b01010, DefaultLeaf sampleHash⟩]

def shortRun : Except Error SMT :=
  SMT.Update sampleHash SMT.new [⟨sampleKey 0b01100, 13⟩]

private theorem longRun_free :
    (longRun >>= fun s => pure (decide (CollisionFree sampleHash s))) = .ok true := by
  decide +kernel

private theorem shortRun_free :
    (shortRun >>= fun s => pure (decide (CollisionFree sampleHash s))) = .ok true := by
  decide +kernel

theorem Edited.root_eq_sample : ∃ s s', longRun = .ok s ∧ shortRun = .ok s' ∧ s.root = s'.root := by
  obtain ⟨s, long, free⟩ := bind_ok_iff.mp longRun_free
  obtain ⟨s', short, free'⟩ := bind_ok_iff.mp shortRun_free
  refine ⟨s, s', long, short, ?_⟩
  obtain ⟨s₁, first, rest⟩ := bind_ok_iff.mp long
  obtain ⟨s₂, second, third⟩ := bind_ok_iff.mp rest
  have edited := ((Edited.new.update _ first).update _ second).update _ third
  have same : applyKVs sampleHash [⟨sampleKey 0b01010, DefaultLeaf sampleHash⟩]
      (applyKVs sampleHash [⟨sampleKey 0b01100, 13⟩] (applyKVs sampleHash [⟨sampleKey 0b01010, 12⟩]
        fun _ => none)) =
      applyKVs sampleHash [⟨sampleKey 0b01100, 13⟩] fun _ => none := by
    funext key
    by_cases at_first : sampleKey 0b01010 = key
    · subst at_first
      decide
    · simp [applyKVs, at_first]
  rw [same] at edited
  exact (Edited.root_eq edited (Edited.new.update _ short)
    (CollisionFree.injOn (of_decide_eq_true (pure_ok_iff.mp free)))
    (CollisionFree.injOn (of_decide_eq_true (pure_ok_iff.mp free')))).1

def shortcutBatch : List KV :=
  [⟨sampleKey 0b01100, 13⟩]

/-- The shortcut is deleted between a smaller and a larger key. -/
def betweenBatch : List KV :=
  [⟨sampleKey 0b01010, 12⟩, ⟨sampleKey 0b01100, DefaultLeaf sampleHash⟩, ⟨sampleKey 0b10000, 14⟩]

def lastBatch : List KV :=
  [⟨sampleKey 0b11001, 16⟩]

def losingRun : Except Error SMT := do
  let s ← SMT.Update sampleHash SMT.new shortcutBatch
  let s ← SMT.Update sampleHash s betweenBatch
  SMT.Update sampleHash s lastBatch

private theorem losingRun_get : (losingRun >>= fun s => s.Get (sampleKey 0b11001)) = .ok none := by
  decide +kernel

theorem losingRun_free :
    (losingRun >>= fun s => pure (decide (CollisionFree sampleHash s))) = .ok true := by
  decide +kernel

/-- Three successful updates with sorted batches: a key that the last one inserts is not found
afterwards. -/
theorem update_loses_key : ∃ s₁ s₂ s₃, SMT.Update sampleHash SMT.new shortcutBatch = .ok s₁ ∧
    SMT.Update sampleHash s₁ betweenBatch = .ok s₂ ∧ SMT.Update sampleHash s₂ lastBatch = .ok s₃ ∧
    Sorted shortcutBatch ∧ Sorted betweenBatch ∧ Sorted lastBatch ∧
    Set.InjOn sampleHash { input | input ∈ s₃.db.hashed } ∧
    ⟨sampleKey 0b11001, 16⟩ ∈ lastBatch ∧ s₃.Get (sampleKey 0b11001) = .ok none := by
  obtain ⟨s₃, run, missing⟩ := bind_ok_iff.mp losingRun_get
  obtain ⟨_, again, free⟩ := bind_ok_iff.mp losingRun_free
  obtain rfl := Except.ok.inj (run.symm.trans again)
  obtain ⟨s₁, first, rest⟩ := bind_ok_iff.mp run
  obtain ⟨s₂, second, third⟩ := bind_ok_iff.mp rest
  refine ⟨s₁, s₂, s₃, first, second, third, ?_, ?_, ?_, ?_, by simp [lastBatch], missing⟩
  · unfold Sorted
    decide
  · unfold Sorted
    decide
  · unfold Sorted
    decide
  · exact CollisionFree.injOn (of_decide_eq_true (pure_ok_iff.mp free))

end AliceNet.BadgerTrie
