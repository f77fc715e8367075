import AliceNet.BadgerTrie.Build

/-!
`update` refines the insertion and removal of keys in the abstract trie, level by level.
-/

namespace AliceNet.BadgerTrie

open SparseTrie MerkleTrie Outcome

section

variable {hash : Bytes → Bytes32} {hashed : Set Bytes} {db : CacheDB}

def CacheDB.Extends (db db' : CacheDB) : Prop :=
  db'.db = db.db ∧ db.hashed ⊆ db'.hashed

theorem CacheDB.Extends.refl (db : CacheDB) : db.Extends db :=
  ⟨rfl, List.Subset.refl _⟩

theorem CacheDB.Extends.trans (first : db.Extends db') (second : db'.Extends db'') :
    db.Extends db'' :=
  ⟨second.1.trans first.1, List.Subset.trans first.2 second.2⟩

private theorem interiorHash_log
    (ran : interiorHash hash db left right root batch i n = .ok (node, batch', db')) :
    db.Extends db' := by
  rw [interiorHash_eq (interiorHash_child ran)] at ran
  obtain ⟨rfl, rfl, rfl⟩ := ran
  split <;> simp [CacheDB.Extends, storeNode_db, storeNode_hashed, CacheDB.record]

private theorem moveUpShortcut_log
    (ran : moveUpShortcut hash db shortcut root batch i c n = .ok result) :
    db.Extends result.db := by
  simp only [moveUpShortcut, bind_ok_iff] at ran
  obtain ⟨children, _, ran⟩ := ran
  split at ran
  · split at ran
    · obtain rfl := pure_ok_iff.mp ran
      simp [CacheDB.Extends, storeNode_db, storeNode_hashed, CacheDB.record]
    · split at ran <;>
        · obtain rfl := pure_ok_iff.mp ran
          simp [CacheDB.Extends, CacheDB.record]
  · cases ran

private theorem maybeMoveUpShortcut_log
    (ran : maybeMoveUpShortcut hash db left right root batch i n = .ok (some result)) :
    db.Extends result.db := by
  unfold maybeMoveUpShortcut at ran
  split at ran
  · cases ran
    exact .refl db
  · split at ran
    · obtain ⟨_, movedUp, ⟨rfl⟩⟩ := map_ok_iff.mp ran
      exact moveUpShortcut_log movedUp
    · cases ran
  · split at ran
    · obtain ⟨_, movedUp, ⟨rfl⟩⟩ := map_ok_iff.mp ran
      exact moveUpShortcut_log movedUp
    · cases ran
  · cases ran

private theorem interiorNode_log (ran : (do
      let (node, batch, db) ← interiorHash hash db left right root batch i n
      pure (⟨some node, false, batch, db⟩ : MResult)) = .ok result) : db.Extends result.db := by
  simp only [ok_iff'] at ran
  obtain ⟨node, batch', db', interior, rfl⟩ := ran
  exact interiorHash_log interior

theorem closeNode_log (ran : closeNode hash db left right root deleted batch i n = .ok result) :
    db.Extends result.db := by
  cases deleted with
  | false => exact interiorNode_log ran
  | true =>
    obtain ⟨movedUp, moving, ran⟩ := bind_ok_iff.mp ran
    cases movedUp with
    | none => exact interiorNode_log ran
    | some movedUp =>
      obtain rfl := pure_ok_iff.mp ran
      exact maybeMoveUpShortcut_log moving

/-- Everything that was hashed is known to be. -/
abbrev Logged (hashed : Set Bytes) (result : MResult) : Prop := ∀ input ∈ result.db.hashed,
    input ∈ hashed

/-- A function that updates a subtree and only adds to the record. -/
def Logs (below : Updater) : Prop :=
  ∀ db root kvs batch i result, below db root kvs batch i = .ok result → db.Extends result.db

theorem leafHash_log : db.Extends (leafHash hash db kv root batch i n).2.2 := by
  rw [leafHash_eq]
  split <;> simp [CacheDB.Extends, storeNode_db, storeNode_hashed, CacheDB.record]

private theorem updateChildren_log (logs : Logs below)
    (ran : updateChildren hash below db root kvs batch i lnode rnode n = .ok result) :
    db.Extends result.db := by
  unfold updateChildren at ran
  split at ran
  · split at ran
    · obtain rfl := pure_ok_iff.mp ran
      exact .refl db
    · obtain rfl := pure_ok_iff.mp ran
      exact leafHash_log
  · split at ran
    · obtain ⟨right, updated, closed⟩ := bind_ok_iff.mp ran
      exact (logs _ _ _ _ _ _ updated).trans (closeNode_log closed)
    · obtain ⟨left, updated, closed⟩ := bind_ok_iff.mp ran
      exact (logs _ _ _ _ _ _ updated).trans (closeNode_log closed)
    · obtain ⟨left, updatedLeft, ran⟩ := bind_ok_iff.mp ran
      obtain ⟨right, updatedRight, closed⟩ := bind_ok_iff.mp ran
      exact (logs _ _ _ _ _ _ updatedLeft).trans
        ((logs _ _ _ _ _ _ updatedRight).trans (closeNode_log closed))

theorem keep_db (middle : MResult) :
    (if n % 4 = 0 then { middle with batch } else middle).db = middle.db := by
  split <;> rfl

private theorem updateStep_log (logs : Logs below) (n : ℕ) : Logs (updateStep hash below n) := by
  intro db root kvs batch i result ran
  simp only [updateStep, bind_ok_iff] at ran
  obtain ⟨children, _, ran⟩ := ran
  split at ran
  · split at ran
    · split at ran
      · obtain rfl := pure_ok_iff.mp ran
        split <;> exact .refl db
      · obtain ⟨middle, updated, rfl⟩ := map_ok_iff.mp ran
        rw [keep_db]
        exact updateChildren_log logs updated
    · cases ran
  · obtain ⟨middle, updated, rfl⟩ := map_ok_iff.mp ran
    rw [keep_db]
    exact updateChildren_log logs updated

theorem update_log (n : ℕ) : Logs (update hash n) := by
  induction n with
  | zero =>
    intro db root kvs batch i result ran
    cases kvs with
    | nil => cases ran
    | cons kv rest =>
      simp only [update] at ran
      split at ran
      · obtain rfl := pure_ok_iff.mp ran
        exact .refl db
      · obtain rfl := pure_ok_iff.mp ran
        change db.Extends (leafHash hash db kv root Batch.default 0 0).2.2
        exact leafHash_log
  | succ n ih =>
    intro db root kvs batch i result ran
    cases kvs with
    | nil => cases ran
    | cons kv rest => exact updateStep_log ih (n + 1) _ _ _ _ _ _ ran

/-- The keys can be applied to the subtree `t` of height `n`. -/
structure Task (hash : Bytes → Bytes32) (n : ℕ) (t : Tree) (kvs : List KV) : Prop where
  genuine : ∀ entry ∈ t.entries, entry.2 ≠ DefaultLeaf hash
  sorted : Sorted kvs
  within : Local n kvs
  near : ∀ key ∈ t.keys, ∀ kv ∈ kvs, Agree n key kv.key
  safe : Safe hash (TrieHeight - n) t kvs

/-- The keys go to one side of a node at height `n + 1`. -/
abbrev Side (n : ℕ) (bit : Bool) (keys : List Bytes32) : Prop :=
  ∀ key ∈ keys, bitIsSet key (TrieHeight - (n + 1)) = bit

abbrev KVSide (n : ℕ) (bit : Bool) (kvs : List KV) : Prop :=
  ∀ kv ∈ kvs, bitIsSet kv.key (TrieHeight - (n + 1)) = bit

theorem depth_succ (bound : n + 1 ≤ TrieHeight) : TrieHeight - (n + 1) + 1 = TrieHeight - n := by
  omega

theorem Task.side (task : Task hash (n + 1) t kvs) (bound : n + 1 ≤ TrieHeight)
    (entries : s.entries ⊆ t.entries) (part : kvs'.Sublist kvs) (keys : Side n bit s.keys)
    (bits : KVSide n bit kvs') (safe : Safe hash (TrieHeight - (n + 1) + 1) s kvs') :
    Task hash n s kvs' where
  genuine := fun entry mem => task.genuine entry (entries mem)
  sorted := task.sorted.sublist part
  within := fun a first b second =>
    (task.within a (part.subset first) b (part.subset second)).of_bit bound
      ((bits a first).trans (bits b second).symm)
  near := fun key mem kv present =>
    (task.near key (List.map_subset _ entries mem) kv (part.subset present)).of_bit bound
      ((keys key mem).trans (bits kv present).symm)
  safe := depth_succ bound ▸ safe

theorem Task.left (task : Task hash (n + 1) (.node l r) (lkvs ++ rkvs)) (bound : n + 1 ≤ TrieHeight)
    (zeros : Side n false l.keys) (bits : KVSide n false lkvs) : Task hash n l lkvs := by
  refine task.side bound (List.subset_append_left _ _) (List.sublist_append_left _ _) zeros bits ?_
  exact task.safe.1.mono fun kv mem => List.mem_filter.mpr ⟨by simp [mem], by simp [bits kv mem]⟩

theorem Task.right (task : Task hash (n + 1) (.node l r) (lkvs ++ rkvs))
    (bound : n + 1 ≤ TrieHeight) (ones : Side n true r.keys) (bits : KVSide n true rkvs) :
    Task hash n r rkvs := by
  refine task.side bound (List.subset_append_right _ _) (List.sublist_append_right _ _) ones bits ?_
  exact task.safe.2.mono fun kv mem => List.mem_filter.mpr ⟨by simp [mem], bits kv mem⟩

/-- `t'` is `t` with the keys applied. -/
def Applied (hash : Bytes → Bytes32) (n : ℕ) (t : Tree) (kvs : List KV) (t' : Tree) : Prop :=
  ∀ key, lookup bitIsSet (TrieHeight - n) t' key =
    applyKVs hash kvs (lookup bitIsSet (TrieHeight - n) t) key

theorem Applied.mem_keys (applied : Applied hash n t kvs t')
    (canonical' : Canonical bitIsSet n (TrieHeight - n) t') (mem : key ∈ t'.keys) :
    key ∈ t.keys ∨ ∃ kv ∈ kvs, kv.key = key := by
  by_contra neither
  simp only [not_or, not_exists, not_and] at neither
  have absent := applied key
  rw [applyKVs_of_not_mem neither.2, lookup_none_of_not_mem neither.1,
    canonical'.lookup_eq_none_iff] at absent
  exact absent mem

private theorem applyKVs_append (zeros : ∀ kv ∈ lkvs, bitIsSet kv.key d = false)
    (ones : ∀ kv ∈ rkvs, bitIsSet kv.key d = true) (map : Bytes32 → Option Bytes32)
    (key : Bytes32) :
    applyKVs hash (lkvs ++ rkvs) map key =
      if bitIsSet key d then applyKVs hash rkvs map key else applyKVs hash lkvs map key := by
  unfold applyKVs
  by_cases bit : bitIsSet key d = true
  · have none : lkvs.find? (fun kv => kv.key = key) = none := by
      refine List.find?_eq_none.mpr fun kv mem same => ?_
      have equal : kv.key = key := by simpa using same
      simp [← equal, zeros kv mem] at bit
    simp [bit, none]
  · have none : rkvs.find? (fun kv => kv.key = key) = none := by
      refine List.find?_eq_none.mpr fun kv mem same => ?_
      have equal : kv.key = key := by simpa using same
      simp [← equal, ones kv mem] at bit
    simp [bit, none]

theorem applyKVs_congr (same : map key = map' key) :
    applyKVs hash kvs map key = applyKVs hash kvs map' key := by
  unfold applyKVs
  rw [same]

theorem Applied.join (bound : n + 1 ≤ TrieHeight) (left : Applied hash n l lkvs l')
    (right : Applied hash n r rkvs r') (zeros : KVSide n false lkvs) (ones : KVSide n true rkvs)
    (zeros' : Side n false l'.keys) (ones' : Side n true r'.keys) :
    Applied hash (n + 1) (.node l r) (lkvs ++ rkvs) (SparseTrie.join l' r') := by
  intro key
  have depth := depth_succ bound
  rw [lookup_join zeros' ones', applyKVs_append zeros ones, depth]
  split
  · rename_i bit
    rw [right key]
    exact applyKVs_congr (by simp [lookup, bit, depth])
  · rename_i bit
    rw [left key]
    exact applyKVs_congr (by simp [lookup, bit, depth])

theorem Applied.nil (t : Tree) : Applied hash n t [] t := fun _ => rfl

/-- The trie after a call: compact, with the keys applied, and nothing left to move up. -/
structure Refined (hash : Bytes → Bytes32) (n : ℕ) (t : Tree) (kvs : List KV) (t' : Tree)
  (deleted : Bool) : Prop where
  canonical : Canonical bitIsSet n (TrieHeight - n) t'
  applied : Applied hash n t kvs t'
  kept : deleted = false → t' ≠ .empty ∧ (t.IsNode ∨ (t = .empty ∧ 2 ≤ kvs.length) → t'.IsNode)

def Correct (hash : Bytes → Bytes32) (hashed : Set Bytes) (n : ℕ) (below : Updater) : Prop :=
  ∀ db t root kvs batch i result, Sound hash hashed db → Represents hash hashed db n t →
    Placed hash n t root batch i →
    (n % 4 ≠ 0 → i ≠ 0) → below db root kvs batch i = .ok result →
      (∀ input ∈ result.db.hashed, input ∈ hashed) →
    ∃ t', Built hash hashed n t' db batch i result ∧
      (Canonical bitIsSet n (TrieHeight - n) t → Task hash n t kvs → kvs ≠ [] →
        Refined hash n t kvs t' result.deleted)

structure Opened (hash : Bytes → Bytes32) (hashed : Set Bytes) (n : ℕ) (l r : Tree) (db : CacheDB)
    (batch : Batch) (i : ℕ) : Prop where
  sound : Sound hash hashed db
  left : Represents hash hashed db n l
  right : Represents hash hashed db n r
  leftSlot : batch.slots (2 * i + 1) = ref hash n l
  rightSlot : batch.slots (2 * i + 2) = ref hash n r
  leftIn : InBatch hash (n % 4) batch.slots (2 * i + 1) n l
  rightIn : InBatch hash (n % 4) batch.slots (2 * i + 2) n r

structure Ordered (n : ℕ) (l r : Tree) : Prop where
  left : Canonical bitIsSet n (TrieHeight - n) l
  right : Canonical bitIsSet n (TrieHeight - n) r
  zeros : ∀ key ∈ l.keys, bitIsSet key (TrieHeight - (n + 1)) = false
  ones : ∀ key ∈ r.keys, bitIsSet key (TrieHeight - (n + 1)) = true
  shape : (l = .empty ∧ r = .empty) ∨ join l r = .node l r

/-- `Refined` for two subtrees. -/
structure BothRefined (hash : Bytes → Bytes32) (n : ℕ) (l r : Tree) (kvs : List KV) (t' : Tree)
    (deleted : Bool) : Prop where
  canonical : Canonical bitIsSet (n + 1) (TrieHeight - (n + 1)) t'
  applied : Applied hash (n + 1) (.node l r) kvs t'
  kept : deleted = false → t' ≠ .empty ∧ (join l r = .node l r ∨ 2 ≤ kvs.length → t'.IsNode)

theorem Built.childIn (built : Built hash hashed n t db batch i result) :
    InBatch hash (n % 4) result.batch.slots i n t := by
  by_cases top : n % 4 = 0
  · rw [top]
    trivial
  · exact built.inBatch top

section

variable (opened : Opened hash hashed n l r db batch i)

include opened

theorem Opened.placed_left :
    Placed hash n l (ref hash n l) batch (2 * i + 1) :=
  ⟨rfl, fun _ => ⟨opened.leftSlot, opened.leftIn⟩⟩

theorem Opened.placed_right :
    Placed hash n r (ref hash n r) batch (2 * i + 2) :=
  ⟨rfl, fun _ => ⟨opened.rightSlot, opened.rightIn⟩⟩

theorem Opened.after_left
    (built : Built hash hashed n l' db batch (2 * i + 1) result) :
    Represents hash hashed result.db n r ∧ result.batch.slots (2 * i + 2) = ref hash n r ∧
      InBatch hash (n % 4) result.batch.slots (2 * i + 2) n r := by
  refine ⟨opened.right.mono built.filed, ?_, ?_⟩
  · rw [built.frame _ fun below => by have := below.two_mul_lt; omega, opened.rightSlot]
  · exact opened.rightIn.congr fun j below => built.frame j fun below' => below'.disjoint below

theorem Opened.after_right (built : Built hash hashed n r' db batch (2 * i + 2) result) :
    Represents hash hashed result.db n l ∧ InBatch hash (n % 4) result.batch.slots (2 * i + 1) n
      l :=
  ⟨opened.left.mono built.filed, opened.leftIn.congr fun j below => built.frame j below.disjoint⟩

end

theorem Built.after (built : Built hash hashed n t db' batch' i result)
    (filed : ∀ word, Filed db word → Filed db' word)
    (frame : ∀ j, ¬ Below i j → batch'.slots j = batch.slots j) :
    Built hash hashed n t db batch i result :=
  ⟨built.update, built.sound, fun word known => built.filed word (filed word known),
    built.represents, built.inBatch,
    fun j outside => (built.frame j outside).trans (frame j outside)⟩

theorem Ordered.refined (ordered : Ordered n l r) (bound : n + 1 ≤ TrieHeight)
    (left : Canonical bitIsSet n (TrieHeight - n) l')
    (right : Canonical bitIsSet n (TrieHeight - n) r') (leftApplied : Applied hash n l lkvs l')
    (rightApplied : Applied hash n r rkvs r') (zeros : KVSide n false lkvs)
    (ones : KVSide n true rkvs) (kept : deleted = false → join l' r' = .node l' r') :
    BothRefined hash n l r (lkvs ++ rkvs) (join l' r') deleted := by
  have depth := depth_succ bound
  have zeros' : Side n false l'.keys := by
    intro key mem
    rcases leftApplied.mem_keys left mem with stored | ⟨kv, present, rfl⟩
    · exact ordered.zeros key stored
    · exact zeros kv present
  have ones' : Side n true r'.keys := by
    intro key mem
    rcases rightApplied.mem_keys right mem with stored | ⟨kv, present, rfl⟩
    · exact ordered.ones key stored
    · exact ones kv present
  refine ⟨Canonical.join (depth.symm ▸ left) (depth.symm ▸ right) zeros' ones',
    leftApplied.join bound rightApplied zeros ones zeros' ones', fun notGone => ?_⟩
  rw [kept notGone]
  exact ⟨by simp, fun _ => trivial⟩

private theorem two_le_of_not_single (nonempty : kvs ≠ []) (several : ∀ kv, kvs ≠ [kv]) :
    2 ≤ kvs.length := by
  match kvs, nonempty, several with
  | [kv], _, several => exact absurd rfl (several kv)
  | _ :: _ :: _, _, _ => simp

section

variable {root : Option Node} {left right : MResult}
  (inj : Set.InjOn hash hashed) (bound : n + 1 ≤ TrieHeight) (correct : Correct hash hashed n below)
  (opened : Opened hash hashed n l r db batch i)
  (old : (n + 1) % 4 = 0 → ∀ h, root = some h → Filed db h.word) (top : (n + 1) % 4 = 0 ↔ i = 0)

include opened old top in
private theorem updateChildren_single (noLeft : l = .empty) (noRight : r = .empty)
    (ran : updateChildren hash below db root [kv] batch i none none (n + 1) = .ok result)
    (log : Logged hashed result) :
    ∃ t', Built hash hashed (n + 1) t' db batch i result ∧
      BothRefined hash n l r [kv] t' result.deleted := by
  subst noLeft noRight
  have whole : InBatch hash (n % 4 + 1) batch.slots i (n + 1) .empty :=
    ⟨opened.leftSlot, opened.rightSlot, opened.leftIn, opened.rightIn⟩
  simp only [updateChildren] at ran
  split at ran
  · rename_i default
    obtain rfl := pure_ok_iff.mp ran
    refine ⟨.empty, ⟨rfl, opened.sound, fun _ kept => kept, ⟨.empty, opened.left.inputs, trivial⟩,
      fun inner => ?_,
      fun _ _ => rfl⟩, .empty, fun key => ?_, fun notGone => by cases notGone⟩
    · have levels : (n + 1) % 4 = n % 4 + 1 := by omega
      rw [levels]
      exact whole
    · by_cases same : kv.key = key <;> simp [applyKVs, lookup, same, default.symm]
  · rename_i kept
    obtain rfl := pure_ok_iff.mp ran
    refine ⟨.leaf kv.key kv.value, leafHash_built opened.sound (by rwa [levels_succ]) old top.mp rfl
      log false, .leaf _ _, fun key => ?_, fun _ =>
      ⟨by simp, fun several => by simp [join] at several⟩⟩
    by_cases same : kv.key = key <;> simp [applyKVs, lookup, same, Ne.symm kept]

include inj bound correct opened old top

private theorem updateRight_correct
    (updated : below db (ref hash n r) rkvs batch (2 * i + 2) = .ok right)
    (closing : closeNode hash right.db (ref hash n l) right.update root right.deleted right.batch i
      (n + 1) = .ok result)
    (log : Logged hashed result) :
    ∃ t', Built hash hashed (n + 1) t' db batch i result ∧
      (Ordered n l r → Task hash (n + 1) (.node l r) rkvs →
      rkvs ≠ [] → (l = .empty → r = .empty → 2 ≤ rkvs.length) →
      KVSide n true rkvs → BothRefined hash n l r rkvs t' result.deleted) := by
  have rightLog : Logged hashed right :=
    fun input mem => log input ((closeNode_log closing).2 mem)
  obtain ⟨r', built, refines⟩ := correct _ _ _ _ _ _ _ opened.sound opened.right opened.placed_right
    (fun _ => by omega) updated rightLog
  obtain ⟨left, leftIn⟩ := opened.after_right built
  rw [built.update] at closing
  obtain ⟨t', closed, compact⟩ :=
    closeNode_built inj built.sound left built.represents leftIn built.childIn (fun zero h same =>
    built.filed _ (old zero h same)) top closing log
  refine ⟨t', closed.after built.filed fun j outside => built.frame j fun below =>
    outside below.of_right, fun ordered task nonempty several ones => ?_⟩
  have rightTask : Task hash n r rkvs := by
    rw [← List.nil_append rkvs] at task
    exact task.right bound ordered.ones ones
  have refined := refines ordered.right rightTask nonempty
  obtain ⟨rfl, whole⟩ := compact fun notGone => by
    obtain ⟨some, node⟩ := refined.kept notGone
    by_cases left : l = .empty
    · refine join_of_isNode (.inr (node ?_))
      rcases ordered.shape with ⟨_, right⟩ | whole
      · exact .inr ⟨right, several left right⟩
      · exact .inl ((isNode_of_join whole).1 left)
    · exact join_of_ne_empty left some
  exact ordered.refined bound ordered.left refined.canonical (Applied.nil l) refined.applied nofun
    ones whole

private theorem updateLeft_correct
    (updated : below db (ref hash n l) lkvs batch (2 * i + 1) = .ok left)
    (closing : closeNode hash left.db left.update (ref hash n r) root left.deleted left.batch i
      (n + 1) = .ok result)
    (log : Logged hashed result) :
    ∃ t', Built hash hashed (n + 1) t' db batch i result ∧
      (Ordered n l r → Task hash (n + 1) (.node l r) lkvs →
      lkvs ≠ [] → (l = .empty → r = .empty → 2 ≤ lkvs.length) →
      KVSide n false lkvs → BothRefined hash n l r lkvs t' result.deleted) := by
  have leftLog : Logged hashed left :=
    fun input mem => log input ((closeNode_log closing).2 mem)
  obtain ⟨l', built, refines⟩ := correct _ _ _ _ _ _ _ opened.sound opened.left opened.placed_left
    (fun _ => by omega) updated leftLog
  obtain ⟨right, _, rightIn⟩ := opened.after_left built
  rw [built.update] at closing
  obtain ⟨t', closed, compact⟩ :=
    closeNode_built inj built.sound built.represents right built.childIn rightIn (fun zero h same =>
    built.filed _ (old zero h same)) top closing log
  refine ⟨t', closed.after built.filed fun j outside => built.frame j fun below =>
    outside below.of_left, fun ordered task nonempty several zeros => ?_⟩
  have leftTask : Task hash n l lkvs := by
    rw [← List.append_nil lkvs] at task
    exact task.left bound ordered.zeros zeros
  have refined := refines ordered.left leftTask nonempty
  obtain ⟨rfl, whole⟩ := compact fun notGone => by
    obtain ⟨some, node⟩ := refined.kept notGone
    by_cases right : r = .empty
    · refine join_of_isNode (.inl (node ?_))
      rcases ordered.shape with ⟨left, _⟩ | whole
      · exact .inr ⟨left, several left right⟩
      · exact .inl ((isNode_of_join whole).2 right)
    · exact join_of_ne_empty some right
  have both := ordered.refined bound refined.canonical ordered.right refined.applied (Applied.nil r)
    zeros nofun whole
  rwa [List.append_nil] at both

private theorem updateParallel_correct (logs : Logs below)
    (updatedLeft : below db (ref hash n l) lkvs batch (2 * i + 1) = .ok left)
    (updatedRight : below left.db (ref hash n r) rkvs left.batch (2 * i + 2) = .ok right)
    (closing : closeNode hash right.db left.update right.update root (left.deleted || right.deleted)
      right.batch i (n + 1) = .ok result)
    (log : Logged hashed result) :
    ∃ t', Built hash hashed (n + 1) t' db batch i result ∧ (Ordered n l r →
      Task hash (n + 1) (.node l r) (lkvs ++ rkvs) → lkvs ≠ [] → rkvs ≠ [] →
      KVSide n false lkvs →
      KVSide n true rkvs →
      BothRefined hash n l r (lkvs ++ rkvs) t' result.deleted) := by
  have rightLog : Logged hashed right :=
    fun input mem => log input ((closeNode_log closing).2 mem)
  have leftLog : Logged hashed left :=
    fun input mem => rightLog input ((logs _ _ _ _ _ _ updatedRight).2 mem)
  obtain ⟨l', builtLeft, refinesLeft⟩ :=
    correct _ _ _ _ _ _ _ opened.sound opened.left opened.placed_left (fun _ => by omega)
    updatedLeft leftLog
  obtain ⟨rightRep, rightSlot, rightIn⟩ := opened.after_left builtLeft
  obtain ⟨r', builtRight, refinesRight⟩ := correct _ _ _ _ _ _ _ builtLeft.sound rightRep
    ⟨rfl, fun _ => ⟨rightSlot, rightIn⟩⟩ (fun _ => by omega) updatedRight rightLog
  have leftIn : InBatch hash (n % 4) right.batch.slots (2 * i + 1) n l' :=
    builtLeft.childIn.congr fun j below => builtRight.frame j below.disjoint
  have filed : ∀ word, Filed db word → Filed right.db word :=
    fun word known => builtRight.filed word (builtLeft.filed word known)
  rw [builtLeft.update, builtRight.update] at closing
  obtain ⟨t', closed, compact⟩ :=
    closeNode_built inj builtRight.sound (builtLeft.represents.mono builtRight.filed)
    builtRight.represents leftIn builtRight.childIn (fun zero h same => filed _ (old zero h same))
    top closing log
  refine ⟨t', closed.after filed fun j outside =>
    ?_, fun ordered task someLeft someRight zeros ones => ?_⟩
  · rw [builtRight.frame j fun below => outside below.of_right, builtLeft.frame j fun below =>
      outside below.of_left]
  · have refinedLeft := refinesLeft ordered.left (task.left bound ordered.zeros zeros) someLeft
    have refinedRight := refinesRight ordered.right (task.right bound ordered.ones ones) someRight
    obtain ⟨rfl, whole⟩ := compact fun notGone => by
      obtain ⟨leftKept, rightKept⟩ := Bool.or_eq_false_iff.mp notGone
      exact join_of_ne_empty (refinedLeft.kept leftKept).1 (refinedRight.kept rightKept).1
    exact ordered.refined bound refinedLeft.canonical refinedRight.canonical refinedLeft.applied
      refinedRight.applied zeros ones whole

theorem updateChildren_correct (logs : Logs below)
    (ran : updateChildren hash below db root kvs batch i (ref hash n l) (ref hash n r) (n + 1) =
      .ok result)
    (log : Logged hashed result) :
    ∃ t', Built hash hashed (n + 1) t' db batch i result ∧
      (Ordered n l r → Task hash (n + 1) (.node l r) kvs →
      kvs ≠ [] → BothRefined hash n l r kvs t' result.deleted) := by
  by_cases single : (l = .empty ∧ r = .empty) ∧ ∃ kv, kvs = [kv]
  · obtain ⟨⟨noLeft, noRight⟩, kv, rfl⟩ := single
    rw [noLeft, noRight] at ran
    obtain ⟨t', built, refined⟩ := updateChildren_single opened old top noLeft noRight ran log
    exact ⟨t', built, fun _ _ _ => refined⟩
  · have several : kvs ≠ [] → l = .empty → r = .empty → 2 ≤ kvs.length := fun nonempty left right =>
      two_le_of_not_single nonempty fun kv same => single ⟨⟨left, right⟩, kv, same⟩
    unfold updateChildren at ran
    split at ran
    · rename_i noLeft noRight
      have left : l = .empty := by cases l <;> simp [ref] at noLeft ⊢
      have right : r = .empty := by cases r <;> simp [ref] at noRight ⊢
      exact absurd ⟨⟨left, right⟩, _, rfl⟩ single
    · split at ran
      · rename_i parts
        obtain ⟨right, updated, closing⟩ := bind_ok_iff.mp ran
        obtain ⟨t', built, refines⟩ :=
          updateRight_correct inj bound correct opened old top updated closing log
        refine ⟨t', built, fun ordered task nonempty => ?_⟩
        obtain ⟨rfl, _, ones⟩ := splitKeys_spec task.sorted task.within bound parts
        exact refines ordered task nonempty (several nonempty) ones
      · rename_i parts
        obtain ⟨left, updated, closing⟩ := bind_ok_iff.mp ran
        obtain ⟨t', built, refines⟩ :=
          updateLeft_correct inj bound correct opened old top updated closing log
        refine ⟨t', built, fun ordered task nonempty => ?_⟩
        obtain ⟨rfl, zeros, _⟩ := splitKeys_spec task.sorted task.within bound parts
        rw [List.append_nil] at task nonempty several ⊢
        exact refines ordered task nonempty (several nonempty) zeros
      · rename_i someLeft someRight parts
        obtain ⟨left, updatedLeft, ran⟩ := bind_ok_iff.mp ran
        obtain ⟨right, updatedRight, closing⟩ := bind_ok_iff.mp ran
        obtain ⟨t', built, refines⟩ :=
          updateParallel_correct inj bound correct opened old top logs updatedLeft updatedRight
          closing log
        refine ⟨t', built, fun ordered task nonempty => ?_⟩
        obtain ⟨rfl, zeros, ones⟩ := splitKeys_spec task.sorted task.within bound parts
        exact refines ordered task someLeft someRight zeros ones

end

theorem Built.keep (built : Built hash hashed n t db batch' i' result)
    (inner : n % 4 ≠ 0 → i' = i ∧ ∀ j, ¬ Below i j → batch'.slots j = batch.slots j) :
    Built hash hashed n t db batch i (if n % 4 = 0 then { result with batch := batch } else
      result) := by
  by_cases top : n % 4 = 0
  · rw [if_pos top]
    exact ⟨built.update, built.sound, built.filed, built.represents, fun inner => absurd top inner,
      fun _ _ => rfl⟩
  · obtain ⟨rfl, same⟩ := inner top
    rw [if_neg top]
    exact built.after (fun _ known => known) same

theorem Placed.old_filed (placed : Placed hash n t root batch i)
    (represents : Represents hash hashed db n t) (top : n % 4 = 0) (same : root = some h) :
    Filed db h.word := by
  have word := placed.word
  rw [same] at word
  have nonempty : t ≠ .empty := by
    rintro rfl
    simp [ref] at word
  rw [ref_word nonempty] at word
  rw [Option.some.inj word]
  exact represents.stored.filed nonempty top

theorem Represents.empty (zero : [0] ∈ hashed) (db : CacheDB) (n : ℕ) :
    Represents hash hashed db n .empty :=
  ⟨.empty, Set.singleton_subset_iff.mpr zero, trivial⟩

theorem Ordered.empty (n : ℕ) : Ordered n .empty .empty :=
  ⟨.empty, .empty, by simp, by simp, .inl ⟨rfl, rfl⟩⟩

theorem Task.empty (sorted : Sorted kvs) (within : Local n kvs) :
    Task hash n (.node .empty .empty) kvs :=
  ⟨by simp [Trie.entries], sorted, within, by simp, trivial, trivial⟩

theorem Applied.of_empty (applied : Applied hash n (.node .empty .empty) kvs t') (key : Bytes32) :
    lookup bitIsSet (TrieHeight - n) t' key = applyKVs hash kvs (fun _ => none) key := by
  rw [applied key]
  exact applyKVs_congr (by simp [lookup])

theorem Merged.refined (merged : Merged hash kvs ⟨key, value⟩ kvs')
    (task : Task hash n (.leaf key value) kvs)
    (canonical : Canonical bitIsSet n (TrieHeight - n) t')
    (found : ∀ other, lookup bitIsSet (TrieHeight - n) t' other = applyKVs hash kvs' (fun _ =>
      none) other)
    (kept : deleted = false → t' ≠ .empty) : Refined hash n (.leaf key value) kvs t' deleted := by
  refine ⟨canonical, fun other => ?_, fun notGone => ⟨kept notGone, fun impossible => ?_⟩⟩
  · have genuine : value ≠ DefaultLeaf hash := task.genuine (key, value) (by simp [Trie.entries])
    rw [found other, merged.applyKVs_eq task.sorted genuine]
    rfl
  · rcases impossible with impossible | ⟨impossible, _⟩ <;> cases impossible

section

variable {batch : Batch} (inj : Set.InjOn hash hashed) (zero : [0] ∈ hashed)

include inj zero

private theorem updateShortcut_correct (bound : n + 1 ≤ TrieHeight)
    (correct : Correct hash hashed n below) (logs : Logs below) (sound : Sound hash hashed db)
    (old : (n + 1) % 4 = 0 → ∀ h, root = some h → Filed db h.word) (top : (n + 1) % 4 = 0 ↔ i = 0)
    (inBatch : InBatch hash (n % 4 + 1) batch.slots i (n + 1) (.leaf key value))
    (ran : updateChildren hash below db root kvs' ⟨batch.shortcut, pair batch.slots i none none⟩ i
      none none (n + 1) = .ok result)
    (log : Logged hashed result) :
    ∃ t', Built hash hashed (n + 1) t' db batch i result ∧
      (Task hash (n + 1) (.leaf key value) kvs → kvs' ≠ [] →
      Merged hash kvs ⟨key, value⟩ kvs' →
        Refined hash (n + 1) (.leaf key value) kvs t' result.deleted) := by
  have opened : Opened hash hashed n .empty .empty db ⟨batch.shortcut, pair batch.slots i none none⟩
      i :=
    ⟨sound, .empty zero db n, .empty zero db n, pair_left, pair_right,
      inBatch.2.2.1.pair_under (.inl rfl), inBatch.2.2.2.pair_under (.inr rfl)⟩
  obtain ⟨t', built, refines⟩ :=
    updateChildren_correct inj bound correct opened old top logs ran log
  refine ⟨t', built.after (fun _ known => known) fun j outside => pair_frame outside,
    fun task nonempty merged => ?_⟩
  have near : ∀ kv ∈ kvs, Agree (n + 1) key kv.key := task.near key (by simp)
  have refined := refines (.empty n) (Task.empty merged.sorted (merged.local task.within near))
    nonempty
  exact merged.refined task refined.canonical refined.applied.of_empty fun notGone =>
    (refined.kept notGone).1

private theorem updateStep_correct (bound : n + 1 ≤ TrieHeight)
    (correct : Correct hash hashed n below) (logs : Logs below) :
    Correct hash hashed (n + 1) (updateStep hash below (n + 1)) := by
  intro db t root kvs batch i result sound represents placed slot ran log
  obtain ⟨children, loading, loaded⟩ := loadChildren_spec inj sound represents placed
  have old : (n + 1) % 4 = 0 → ∀ h, root = some h → Filed db h.word :=
    fun top _ same => placed.old_filed represents top same
  have top : (n + 1) % 4 = 0 ↔ children.iBatch = 0 := by
    refine ⟨loaded.top, fun first => ?_⟩
    by_contra inner
    exact slot inner ((loaded.inner inner).2 ▸ first)
  have sameBatch : (n + 1) % 4 ≠ 0 → children.iBatch = i ∧ ∀ j, ¬ Below i j →
      children.batch.slots j = batch.slots j :=
    fun inner => ⟨(loaded.inner inner).2, fun j _ => by rw [(loaded.inner inner).1]⟩
  simp only [updateStep, bind_ok_iff] at ran
  obtain ⟨children', again, ran⟩ := ran
  have sameChildren : children = children' := Except.ok.inj (loading.symm.trans again)
  subst sameChildren
  have inBatch := loaded.inBatch
  rw [levels_succ] at inBatch
  have keepDeleted : ∀ middle : MResult,
      (if (n + 1) % 4 = 0 then { middle with batch := batch } else middle).deleted =
          middle.deleted := by
    intro middle
    split <;> rfl
  cases t with
  | empty =>
    simp only [loaded.shortcut, isLeaf, Bool.false_eq_true, if_false, map_ok_iff] at ran
    obtain ⟨middle, updated, rfl⟩ := ran
    rw [keep_db] at log
    rw [loaded.lnode, loaded.rnode, inBatch.1, inBatch.2.1] at updated
    have opened : Opened hash hashed n .empty .empty db children.batch children.iBatch :=
      ⟨sound, .empty zero db n, .empty zero db n, inBatch.1, inBatch.2.1, inBatch.2.2.1,
        inBatch.2.2.2⟩
    obtain ⟨t', built, refines⟩ :=
      updateChildren_correct inj bound correct opened old top logs updated log
    refine ⟨t', built.keep sameBatch, fun _ task nonempty => ?_⟩
    have refined := refines (.empty n) (Task.empty task.sorted task.within) nonempty
    refine ⟨refined.canonical, refined.applied.of_empty, fun notGone => ?_⟩
    rw [keepDeleted] at notGone
    obtain ⟨some, node⟩ := refined.kept notGone
    refine ⟨some, fun several => node (.inr ?_)⟩
    rcases several with impossible | ⟨_, several⟩
    · cases impossible
    · exact several
  | leaf key value =>
    obtain ⟨keySlot, valueSlot⟩ := loaded.shortcut_data
    simp only [loaded.shortcut, isLeaf, if_true, keySlot, valueSlot, Batch.set, pair_comm] at ran
    split at ran
    · rename_i none
      obtain rfl := pure_ok_iff.mp ran
      refine ⟨.empty, Built.keep ⟨rfl, sound, fun _ kept => kept, .empty zero db _, fun inner => ?_,
        fun j outside => pair_frame outside⟩ sameBatch, fun _ task nonempty => ?_⟩
      · have levels : (n + 1) % 4 = n % 4 + 1 := by omega
        rw [levels]
        exact inBatch.clear
      · have merged : Merged hash kvs ⟨key, value⟩ _ :=
          maybeAddShortcutToKV_merged task.sorted nonempty task.safe
        rw [none] at merged
        refine merged.refined task .empty (fun _ => rfl) fun notGone => ?_
        split at notGone <;> cases notGone
    · rename_i some
      obtain ⟨middle, updated, rfl⟩ := map_ok_iff.mp ran
      rw [keep_db] at log
      obtain ⟨t', built, refines⟩ :=
        updateShortcut_correct inj zero bound correct logs sound old top inBatch updated log
      refine ⟨t', built.keep sameBatch, fun _ task nonempty => ?_⟩
      rw [keepDeleted]
      exact refines task some (maybeAddShortcutToKV_merged task.sorted nonempty task.safe)
  | node l r =>
    simp only [loaded.shortcut, isLeaf, Bool.false_eq_true, if_false, map_ok_iff] at ran
    obtain ⟨middle, updated, rfl⟩ := ran
    rw [keep_db] at log
    rw [loaded.lnode, loaded.rnode, inBatch.1, inBatch.2.1] at updated
    have opened : Opened hash hashed n l r db children.batch children.iBatch :=
      ⟨sound, represents.left, represents.right, inBatch.1, inBatch.2.1, inBatch.2.2.1,
        inBatch.2.2.2⟩
    obtain ⟨t', built, refines⟩ :=
      updateChildren_correct inj bound correct opened old top logs updated log
    refine ⟨t', built.keep sameBatch, fun canonical task nonempty => ?_⟩
    have whole := canonical.join_eq
    have depth := depth_succ bound
    cases canonical with
    | node left right zeros ones _ =>
      have refined := refines ⟨depth ▸ left, depth ▸ right, zeros, ones, .inr whole⟩ task nonempty
      refine ⟨refined.canonical, refined.applied, fun notGone => ?_⟩
      rw [keepDeleted] at notGone
      exact ⟨(refined.kept notGone).1, fun _ => (refined.kept notGone).2 (.inl whole)⟩

theorem update_correct (bound : n ≤ TrieHeight) : Correct hash hashed n (update hash n) := by
  induction n with
  | zero =>
    intro db t root kvs batch i result sound represents placed slot ran log
    cases kvs with
    | nil => cases ran
    | cons kv rest =>
      -- at height 0 the subtree holds at most the one key
      have elsewhere : Task hash 0 t (kv :: rest) → rest = [] ∧
          ∀ key, kv.key ≠ key → lookup bitIsSet TrieHeight t key = none := by
        intro task
        refine ⟨List.eq_nil_iff_forall_not_mem.mpr fun other mem => ?_, fun key different => ?_⟩
        · have order := (List.pairwise_cons.mp task.sorted).1 other mem
          rw [(task.within kv (by simp) other (by simp [mem])).eq] at order
          exact BitVec.lt_irrefl _ order
        · refine lookup_none_of_not_mem (fun mem => different ?_) _
          exact (task.near key mem kv (by simp)).eq.symm
      simp only [update] at ran
      split at ran
      · rename_i default
        obtain rfl := pure_ok_iff.mp ran
        refine ⟨.empty, ⟨rfl, sound, fun _ kept => kept, .empty zero db 0, fun inner =>
          absurd rfl inner, fun _ _ => rfl⟩,
          fun _ task _ => ⟨.empty, fun key => ?_, fun notGone => by cases notGone⟩⟩
        obtain ⟨rfl, absent⟩ := elsewhere task
        by_cases same : kv.key = key
        · simp [applyKVs, lookup, same, default.symm]
        · simp [applyKVs, lookup, same, absent key same]
      · rename_i kept
        obtain rfl := pure_ok_iff.mp ran
        have written : leafHash hash db kv root Batch.default 0 0 = (_, _, _) := rfl
        have built := leafHash_built sound (InBatch.default _ 0 0)
          (fun top _ same => placed.old_filed represents top same) (fun _ => rfl) written log false
        refine ⟨.leaf kv.key kv.value, Built.keep built fun inner => absurd rfl inner,
          fun canonical task _ => ⟨.leaf _ _, fun key => ?_, fun _ => ⟨by simp, ?_⟩⟩⟩
        · obtain ⟨rfl, absent⟩ := elsewhere task
          by_cases same : kv.key = key
          · simp [applyKVs, lookup, same, Ne.symm kept]
          · simp [applyKVs, lookup, same, absent key same]
        · obtain ⟨rfl, _⟩ := elsewhere task
          rintro (node | ⟨_, several⟩)
          · cases canonical <;> cases node
          · simp at several
  | succ n ih =>
    intro db t root kvs batch i result sound represents placed slot ran log
    cases kvs with
    | nil => cases ran
    | cons kv rest =>
      exact updateStep_correct inj zero bound (ih (by omega)) (update_log n) db t root (kv :: rest)
        batch i result sound represents placed slot ran log

end

end

end AliceNet.BadgerTrie
