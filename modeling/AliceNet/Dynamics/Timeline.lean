import AliceNet.Dynamics.Storage

/-! Runs of updates of the dynamic parameters, against the parameters that each epoch should have.
-/

namespace AliceNet.Dynamics

open Outcome LinkedTable Function
open List

section

variable (strconv : Strconv)

/-- An update that can not be read changes nothing. -/
def RawStorage.apply (rs : RawStorage) (update : Update) : RawStorage :=
  match rs.updateValue strconv update with
  | .ok rs => rs
  | .error _ => rs

/-- All updates up to the epoch, in the order in which they arrived. -/
def inForce (updates : List Update) (epoch : ℕ) : RawStorage :=
  (updates.filter fun update => update.epoch ≤ epoch).foldl (RawStorage.apply strconv)
    .standardParameters

end

variable {strconv : Strconv} {update : Update} {updates : List Update}

theorem updateValue_ok (checked : checkUpdate strconv update = .ok ()) (rs : RawStorage) :
    rs.updateValue strconv update = .ok (rs.apply strconv update) := by
  simp only [checkUpdate, bind_ok_iff] at checked
  obtain ⟨_, _, _, parsed, _⟩ := checked
  have ran : ∃ rs', rs.updateValue strconv update = .ok rs' := by
    cases key : update.key <;> simp only [RawStorage.updateValue, key] at parsed ⊢ <;>
      obtain ⟨value, read, _⟩ := bind_ok_iff.mp parsed <;> exact ⟨_, by rw [read]; rfl⟩
  obtain ⟨rs', ran⟩ := ran
  rw [RawStorage.apply, ran]

theorem inForce_append (updates : List Update) (update : Update) (epoch : ℕ) :
    inForce strconv (updates ++ [update]) epoch =
      if update.epoch ≤ epoch then (inForce strconv updates epoch).apply strconv update
      else inForce strconv updates epoch := by
  simp only [inForce, filter_append, foldl_append]
  split
  · rename_i due
    simp [due]
  · rename_i later
    simp [later]

theorem inForce_eq (same : ∀ update ∈ updates, update.epoch ≤ a ↔ update.epoch ≤ b) :
    inForce strconv updates a = inForce strconv updates b := by
  rw [inForce, inForce, filter_congr fun update mem => decide_eq_decide.mpr (same update mem)]

def Database.nextOf (db : Database) (epoch : ℕ) : ℕ := ((db.nodes epoch).map Node.nextEpoch).getD 0

def Database.prevOf (db : Database) (epoch : ℕ) : ℕ := ((db.nodes epoch).map Node.prevEpoch).getD 0

/-- The nodes are one doubly linked list over increasing epochs. -/
structure Listed (db : Database) (front : List ℕ) (last : ℕ) : Prop where
  list : db.linkedList = some last
  sorted : (front ++ [last]).Pairwise (· < ·)
  first : (front ++ [last]).head? = some 1
  domain : ∀ epoch, db.nodes epoch ≠ none ↔ epoch ∈ front ++ [last]
  names : ∀ epoch node, db.nodes epoch = some node → node.thisEpoch = epoch
  linked : Linked db.nextOf db.prevOf last 1 (front ++ [last])

variable {db db' : Database} {front before after : List ℕ} {last epoch key : ℕ} {node : Node}

theorem Listed.mem (listed : Listed db front last) (found : db.nodes key = some node) :
    key ∈ front ++ [last] :=
  (listed.domain key).mp (by rw [found]; exact Option.some_ne_none node)

theorem Listed.last_mem (_ : Listed db front last) : last ∈ front ++ [last] :=
  mem_append_right front (mem_singleton.mpr rfl)

section

variable (listed : Listed db front last) (mem : key ∈ front ++ [last])

include listed mem

theorem Listed.stored : ∃ node, db.nodes key = some node :=
  Option.ne_none_iff_exists'.mp ((listed.domain key).mpr mem)

theorem Listed.le_last : key ≤ last := by
  rcases mem_append.mp mem with inside | same
  · exact ((pairwise_append.mp listed.sorted).2.2 key inside last (mem_singleton.mpr rfl)).le
  · exact (mem_singleton.mp same).le

theorem Listed.pos : 1 ≤ key := by
  obtain ⟨rest, keys⟩ := head?_eq_some_iff.mp listed.first
  rw [keys] at mem
  have sorted := keys ▸ listed.sorted
  rcases mem_cons.mp mem with rfl | inside
  · exact le_rfl
  · exact ((pairwise_cons.mp sorted).1 key inside).le

end

theorem Listed.length_le (listed : Listed db front last) : (front ++ [last]).length ≤ last := by
  have distinct : (front ++ [last]).Nodup := listed.sorted.imp fun less => less.ne
  have inside : (front ++ [last]).toFinset ⊆ Finset.Icc 1 last := by
    intro key mem
    rw [mem_toFinset] at mem
    exact Finset.mem_Icc.mpr ⟨listed.pos mem, listed.le_last mem⟩
  have bound := Finset.card_le_card inside
  rwa [toFinset_card_of_nodup distinct, Nat.card_Icc, Nat.add_sub_cancel] at bound

theorem Listed.order (listed : Listed db front last)
    (keys : front ++ [last] = before ++ key :: after) :
    (∀ other ∈ before, other < key) ∧ ∀ other ∈ after, key < other := by
  have sorted := keys ▸ listed.sorted
  rw [pairwise_append, pairwise_cons] at sorted
  exact ⟨fun other mem => sorted.2.2 other mem key mem_cons_self, sorted.2.1.1⟩

section

variable (listed : Listed db front last) (found : db.nodes key = some node)

include listed found

theorem Listed.pointers (keys : front ++ [last] = before ++ key :: after) :
    node.prevEpoch = before.getLastD 1 ∧ node.nextEpoch = after.headD last := by
  obtain ⟨back, forth⟩ := (keys ▸ listed.linked).neighbours
  rw [Database.prevOf, found] at back
  rw [Database.nextOf, found] at forth
  exact ⟨back, forth⟩

theorem Listed.prev_le :
    1 ≤ node.prevEpoch ∧ node.prevEpoch ≤ key ∧ (node.prevEpoch = key ↔ key = 1) := by
  obtain ⟨before, after, keys⟩ := append_of_mem (listed.mem found)
  have back := (listed.pointers found keys).1
  have below := (listed.order keys).1
  have first := listed.first
  rw [keys] at first
  rcases eq_nil_or_concat before with rfl | ⟨init, prev, rfl⟩
  · rw [nil_append, head?_cons, Option.some.injEq] at first
    rw [back, first]
    simp
  · have mem : prev ∈ front ++ [last] := by rw [keys]; simp
    have less := below prev (by simp)
    have pos := listed.pos mem
    rw [concat_eq_append, getLastD_concat] at back
    rw [back]
    exact ⟨pos, less.le, by omega⟩

theorem Listed.le_next : key ≤ node.nextEpoch ∧ (node.nextEpoch = key ↔ key = last) := by
  obtain ⟨before, after, keys⟩ := append_of_mem (listed.mem found)
  have forth := (listed.pointers found keys).2
  have above := (listed.order keys).2
  cases after with
  | nil =>
    have same : key = last := by
      have ends := congrArg getLast? keys
      simpa using ends.symm
    rw [forth, same]
    simp
  | cons next rest =>
    have less := above next (by simp)
    have mem : next ∈ front ++ [last] := by rw [keys]; simp
    have bound := listed.le_last mem
    rw [forth, headD_cons]
    exact ⟨less.le, by omega⟩

theorem Listed.isValid : node.isValid = true := by
  obtain ⟨pos, below, _⟩ := listed.prev_le found
  have above := (listed.le_next found).1
  have name := listed.names key node found
  simp only [Node.isValid, name, Bool.and_eq_true, bne_iff_ne, decide_eq_true_eq]
  omega

theorem Listed.isTail_iff : node.isTail = true ↔ key = 1 := by
  rw [Node.isTail, listed.isValid found, Bool.true_and, beq_iff_eq, listed.names key node found,
    eq_comm]
  exact (listed.prev_le found).2.2

theorem Listed.isHead_iff : node.isHead = true ↔ key = last := by
  rw [Node.isHead, listed.isValid found, Bool.true_and, beq_iff_eq, listed.names key node found,
    eq_comm]
  exact (listed.le_next found).2

theorem Listed.getNode : db.getNode key = .ok node := by
  have pos := listed.pos (listed.mem found)
  simp only [Database.getNode, found, ok_iff]
  exact ⟨(), by omega, (), listed.isValid found, trivial⟩

end

/-- The nodes have the parameters that their epochs should have. -/
structure Timeline (strconv : Strconv) (db : Database) (updates : List Update) (front : List ℕ)
    (last : ℕ) : Prop extends Listed db front last where
  values : ∀ epoch node, db.nodes epoch = some node →
    node.rawStorage = inForce strconv updates epoch
  covered : ∀ update ∈ updates, update.epoch ∈ front ++ [last]

def Node.amend (strconv : Strconv) (update : Update) (node : Node) : Node :=
  { node with rawStorage := node.rawStorage.apply strconv update }

/-- The database in which the nodes of these epochs have the update. -/
def Database.amend (strconv : Strconv) (update : Update) (db : Database) (epochs : List ℕ) :
    Database :=
  { db with nodes := fun epoch =>
      if epoch ∈ epochs then (db.nodes epoch).map (Node.amend strconv update) else db.nodes epoch }

def Database.put (db : Database) (node : Node) : Database :=
  { db with nodes := Function.update db.nodes node.thisEpoch (some node) }

theorem Database.setNode_eq (valid : node.isValid = true) :
    db.setNode node = .ok (db.put node) := by
  simp only [Database.setNode, ok_iff]
  exact ⟨(), valid, rfl⟩

theorem Database.amend_cons (name : node.thisEpoch = key) (fresh : key ∉ after)
    (found : db.nodes key = some node) :
    (db.put (node.amend strconv update)).amend strconv update after =
      db.amend strconv update (key :: after) := by
  simp only [Database.amend, Database.put, Node.amend, name, Database.mk.injEq, true_and]
  funext epoch
  by_cases same : epoch = key
  · subst same
    simp [fresh, found, Node.amend, name]
  · simp [same, update_of_ne]

private theorem replay_succ (checked : checkUpdate strconv update = .ok ())
    (valid : node.isValid = true) (fuel : ℕ) :
    replay strconv update (fuel + 1) db node =
      if node.isHead then .ok (db.put (node.amend strconv update))
      else (db.put (node.amend strconv update)).getNode node.nextEpoch >>=
        replay strconv update fuel (db.put (node.amend strconv update)) := by
  rw [replay, updateValue_ok checked]
  show (do
    let db ← db.setNode (node.amend strconv update)
    if node.isHead then pure db
    else do
      let iterNode ← db.getNode node.nextEpoch
      replay strconv update fuel db iterNode) = _
  rw [Database.setNode_eq (by exact valid)]
  rfl

private theorem replay_eq (checked : checkUpdate strconv update = .ok ())
    (distinct : (key :: after).Nodup)
    (stored : ∀ other ∈ key :: after, ∃ node, db.nodes other = some node ∧ node.thisEpoch = other ∧
      node.isValid = true)
    (linked : Linked db.nextOf db.prevOf last previous (key :: after))
    (ends : (key :: after).getLast? = some last) (found : db.nodes key = some node)
    (bound : after.length < fuel) :
    replay strconv update fuel db node = .ok (db.amend strconv update (key :: after)) := by
  induction after generalizing db key node previous fuel with
  | nil =>
    obtain ⟨fuel, rfl⟩ := Nat.exists_eq_succ_of_ne_zero (Nat.ne_of_gt bound)
    obtain ⟨_, same, name, valid⟩ := stored key mem_cons_self
    obtain rfl := Option.some.inj (found.symm.trans same)
    have forth := linked.2.1
    rw [Database.nextOf, found] at forth
    rw [getLast?_singleton, Option.some.injEq] at ends
    have head : node.isHead = true := by
      rw [Node.isHead, valid, name, ends, show node.nextEpoch = last from forth]
      simp
    rw [replay_succ checked valid, if_pos head, ← Database.amend_cons name (by simp) found]
    simp [Database.amend]
  | cons next rest ih =>
    obtain ⟨fuel, rfl⟩ := Nat.exists_eq_succ_of_ne_zero (Nat.ne_of_gt (Nat.zero_lt_of_lt bound))
    obtain ⟨_, same, name, valid⟩ := stored key mem_cons_self
    obtain rfl := Option.some.inj (found.symm.trans same)
    rw [nodup_cons] at distinct
    have forth := linked.2.1
    rw [Database.nextOf, found] at forth
    have apart : key ≠ next := fun same => distinct.1 (by simp [same])
    have notHead : node.isHead ≠ true := by
      rw [Node.isHead, valid, name, show node.nextEpoch = next from forth]
      simpa using apart
    obtain ⟨nextNode, nextStored, nextName, nextValid⟩ := stored next (by simp)
    -- The rest of the list is not touched by writing this node.
    have kept : ∀ other ∈ next :: rest, (db.put (node.amend strconv update)).nodes other =
        db.nodes other := by
      intro other mem
      refine update_of_ne (fun same => distinct.1 ?_) _ _
      rwa [← name, show node.thisEpoch = other from same.symm]
    have nextStored' := (kept next mem_cons_self).trans nextStored
    have read : (db.put (node.amend strconv update)).getNode next = .ok nextNode := by
      simp only [Database.getNode, nextStored', ok_iff]
      refine ⟨(), ?_, (), nextValid, trivial⟩
      simp only [Node.isValid, nextName, Bool.and_eq_true, bne_iff_ne] at nextValid
      exact nextValid.1.1.1.1
    rw [replay_succ checked valid, if_neg notHead, show node.nextEpoch = next from forth, read,
      ← Database.amend_cons name distinct.1 found]
    refine ih distinct.2 (fun other mem =>
      ?_) (linked.2.2.congr (fun other mem => ?_) fun other mem => ?_) ?_ nextStored'
      (by simpa using bound)
    · rw [kept other mem]
      exact stored other (mem_cons_of_mem _ mem)
    · rw [Database.nextOf, Database.nextOf, kept other mem]
    · rw [Database.prevOf, Database.prevOf, kept other mem]
    · rwa [getLast?_cons_cons] at ends

theorem Database.amend_nodes (db : Database) (epochs : List ℕ) (epoch : ℕ) :
    (db.amend strconv update epochs).nodes epoch =
      if epoch ∈ epochs then (db.nodes epoch).map (Node.amend strconv update) else db.nodes epoch :=
      rfl

theorem Database.amend_nextOf (db : Database) (epochs : List ℕ) (epoch : ℕ) :
    (db.amend strconv update epochs).nextOf epoch = db.nextOf epoch := by
  rw [Database.nextOf, Database.nextOf, Database.amend_nodes]
  split
  · cases db.nodes epoch <;> rfl
  · rfl

theorem Database.amend_prevOf (db : Database) (epochs : List ℕ) (epoch : ℕ) :
    (db.amend strconv update epochs).prevOf epoch = db.prevOf epoch := by
  rw [Database.prevOf, Database.prevOf, Database.amend_nodes]
  split
  · cases db.nodes epoch <;> rfl
  · rfl

theorem Database.amend_some (found : (db.amend strconv update epochs).nodes epoch = some amended) :
    ∃ node, db.nodes epoch = some node ∧
      amended = if epoch ∈ epochs then node.amend strconv update else node := by
  rw [Database.amend_nodes] at found
  split at found
  · rename_i mem
    obtain ⟨node, stored, rfl⟩ := Option.map_eq_some_iff.mp found
    exact ⟨node, stored, by rw [if_pos mem]⟩
  · rename_i outside
    exact ⟨amended, found, by rw [if_neg outside]⟩

def Database.extend (db : Database) (lastNode : Node) (epoch : ℕ) (rs : RawStorage) : Database :=
  { (db.put { lastNode with nextEpoch := epoch }).put ⟨epoch, lastNode.thisEpoch, epoch, rs⟩ with
    linkedList := some epoch }

theorem Database.extend_nodes (db : Database) (rs : RawStorage) (name : node.thisEpoch = last)
    (key : ℕ) :
    (db.extend node epoch rs).nodes key =
      if key = epoch then some ⟨epoch, last, epoch, rs⟩
      else if key = last then some { node with nextEpoch := epoch } else db.nodes key := by
  simp only [Database.extend, Database.put, name, update_apply]

section

variable (listed : Listed db front last)

include listed

theorem Listed.getLinkedList : db.getLinkedList = .ok last := by
  have pos := listed.pos listed.last_mem
  simp only [Database.getLinkedList, listed.list, ok_iff]
  exact ⟨(), by omega, trivial⟩

theorem Listed.walkBack_from (pos : 1 ≤ epoch) (failure : Failure)
    (keys : front ++ [last] = before ++ key :: after) (found : db.nodes key = some node)
    (bound : before.length < fuel) :
    ∃ node', walkBack db epoch failure fuel node = .ok node' ∧ db.nodes node'.thisEpoch =
      some node' ∧
      node'.thisEpoch ≤ epoch ∧ ∀ other ∈ before ++ [key], other ≤ epoch →
        other ≤ node'.thisEpoch := by
  have name := listed.names key node found
  induction before using reverseRecOn generalizing key node after fuel with
  | nil =>
    obtain ⟨fuel, rfl⟩ := Nat.exists_eq_succ_of_ne_zero (Nat.ne_of_gt bound)
    have first := listed.first
    rw [keys, nil_append, head?_cons, Option.some.injEq] at first
    refine ⟨node, by rw [walkBack, if_pos (by omega)]; rfl, by rw [name]; exact found, by omega, ?_⟩
    simp [name]
  | append_singleton init prev ih =>
    obtain ⟨fuel, rfl⟩ := Nat.exists_eq_succ_of_ne_zero (Nat.ne_of_gt (Nat.zero_lt_of_lt bound))
    have below := (listed.order keys).1
    by_cases due : key ≤ epoch
    · refine ⟨node, by rw [walkBack, if_pos (by omega)]; rfl, by rw [name]; exact found, by omega,
        ?_⟩
      intro other mem _
      rcases mem_append.mp mem with inside | same
      · rw [name]
        exact (below other inside).le
      · rw [name]
        exact (mem_singleton.mp same).le
    · have back := (listed.pointers found keys).1
      rw [getLastD_concat] at back
      have notFirst : node.isTail ≠ true := by
        rw [Ne, listed.isTail_iff found]
        omega
      have keys' : front ++ [last] = init ++ prev :: key :: after := by rw [keys, append_assoc]; rfl
      obtain ⟨prevNode, stored⟩ := listed.stored (by rw [keys']; simp : prev ∈ front ++ [last])
      have shorter : init.length < fuel := by
        rw [length_append, length_singleton] at bound
        omega
      obtain ⟨node', walked, found', reached, greatest⟩ :=
        ih keys' stored shorter (listed.names prev prevNode stored)
      refine ⟨node', ?_, found', reached, ?_⟩
      · rw [walkBack, if_neg (by omega), if_neg notFirst, back, listed.getNode stored]
        exact walked
      · intro other mem le
        rcases mem_append.mp mem with inside | same
        · exact greatest other inside le
        · rw [mem_singleton.mp same] at le
          exact absurd le due

theorem Listed.walkBack (pos : 1 ≤ epoch) (failure : Failure)
    (found : db.nodes last = some node) :
    ∃ node', Dynamics.walkBack db epoch failure (last + 1) node = .ok node' ∧
      db.nodes node'.thisEpoch = some node' ∧ node'.thisEpoch ≤ epoch ∧
      ∀ other ∈ front ++ [last], other ≤ epoch → other ≤ node'.thisEpoch := by
  have bound := listed.length_le
  rw [length_append, length_singleton] at bound
  exact listed.walkBack_from pos failure rfl found (by omega)

theorem Listed.amend (epochs : List ℕ) :
    Listed (db.amend strconv update epochs) front last where
  list := listed.list
  sorted := listed.sorted
  first := listed.first
  domain epoch := by
    rw [← listed.domain epoch, Database.amend_nodes]
    split
    · simp
    · rfl
  names epoch amended found := by
    obtain ⟨node, stored, rfl⟩ := Database.amend_some found
    rw [← listed.names epoch node stored]
    split <;> rfl
  linked := listed.linked.congr (fun epoch _ => db.amend_nextOf epochs epoch) fun epoch _ =>
    db.amend_prevOf epochs epoch

private theorem addNode_after (found : db.nodes last = some node) (later : last < epoch)
    (rs : RawStorage) : addNode db ⟨epoch, 0, 0, rs⟩ = .ok (db.extend node epoch rs) := by
  have name := listed.names last node found
  have valid := listed.isValid found
  have pos : epoch ≠ 0 := by omega
  have fresh : (⟨epoch, 0, 0, rs⟩ : Node).isPreValid = true := by simp [Node.isPreValid, pos]
  have head : node.isHead = true := (listed.isHead_iff found).mpr rfl
  have back := listed.prev_le found
  have ended : ({ node with nextEpoch := epoch } : Node).isValid = true := by
    simp only [Node.isValid, name, Bool.and_eq_true, bne_iff_ne, decide_eq_true_eq]
    omega
  have started : (⟨epoch, last, epoch, rs⟩ : Node).isValid = true := by
    simp only [Node.isValid, Bool.and_eq_true, bne_iff_ne, decide_eq_true_eq]
    omega
  simp only [addNode, ok_iff]
  refine ⟨(), fresh, last, listed.getLinkedList, node, listed.getNode found, ?_⟩
  rw [if_pos (by rw [name]; exact later)]
  simp only [addNodeHead, Node.setEpochsHead, ok_iff]
  refine ⟨(), ⟨fresh, valid⟩, (), ⟨head, by rw [name]; exact later⟩, _,
    ⟨(), fresh, (), ⟨valid, by rw [name]; exact later, head⟩, rfl⟩, _, Database.setNode_eq ended, _,
    Database.setNode_eq (by rw [name]; exact started), last, ?_, (), pos, ?_⟩
  · exact listed.getLinkedList
  · simp only [Database.setLinkedList, ok_iff]
    exact ⟨(), pos, rfl⟩

theorem Listed.extend (found : db.nodes last = some node) (later : last < epoch)
    (rs : RawStorage) : Listed (db.extend node epoch rs) (front ++ [last]) epoch := by
  have name := listed.names last node found
  have nodes : ∀ key, (db.extend node epoch rs).nodes key = _ := db.extend_nodes rs name
  have earlier : ∀ key ∈ front ++ [last], key ≠ epoch := fun key mem => by
    have bound := listed.le_last mem
    omega
  have inner : ∀ key ∈ front, key ≠ last := fun key mem =>
    ((pairwise_append.mp listed.sorted).2.2 key mem last (mem_singleton.mpr rfl)).ne
  refine ⟨rfl, ?_, ?_, fun key => ?_, fun key found' stored => ?_, ?_⟩
  · refine pairwise_append.mpr ⟨listed.sorted, pairwise_singleton _ _, fun key mem other single =>
      ?_⟩
    rw [mem_singleton.mp single]
    exact (listed.le_last mem).trans_lt later
  · rw [head?_append, listed.first]
    rfl
  · rw [nodes, mem_append, mem_singleton]
    split
    · simp_all
    · rename_i apart
      split
      · simp_all
      · rw [listed.domain key]
        simp [apart]
  · rw [nodes] at stored
    split at stored
    · obtain rfl := Option.some.inj stored
      exact (by assumption : key = epoch).symm
    · split at stored
      · obtain rfl := Option.some.inj stored
        exact name.trans (by assumption : key = last).symm
      · exact listed.names key found' stored
  · rw [append_assoc]
    refine listed.linked.extend (fun key mem => ?_) (fun key mem => ?_) ?_ ?_ ?_
    · rw [Database.nextOf, Database.nextOf, nodes, if_neg (earlier key (by simp [mem])),
        if_neg (inner key mem)]
    · rw [Database.prevOf, Database.prevOf, nodes, if_neg (earlier key mem)]
      split
      · rename_i same
        rw [same, found]
        rfl
      · rfl
    · rw [Database.nextOf, nodes, if_neg (by omega), if_pos rfl]
      rfl
    · rw [Database.prevOf, nodes, if_pos rfl]
      rfl
    · rw [Database.nextOf, nodes, if_pos rfl]
      rfl

end

def InOrder (updates : List Update) (update : Update) : Prop :=
  update.epoch = 1 ∨ (∃ earlier ∈ updates, earlier.epoch = update.epoch) ∨
    ∀ earlier ∈ updates, earlier.epoch < update.epoch

instance (updates : List Update) (update : Update) : Decidable (InOrder updates update) :=
  inferInstanceAs (Decidable (_ ∨ _ ∨ _))

inductive Run (strconv : Strconv) : Database → List Update → Prop
  | empty : Run strconv .empty []
  | update {db db' : Database} {updates : List Update} {update : Update}
      (run : Run strconv db updates)
      (inOrder : InOrder updates update) (ran : updateStorage strconv db update = .ok db') :
      Run strconv db' (updates ++ [update])

private theorem createLinkedList_ok :
    ∃ db, createLinkedList .empty = .ok db ∧ initialized .empty = .ok db ∧
    Timeline strconv db [] [] 1 := by
  refine ⟨{ Database.empty.put ⟨1, 1, 1, .standardParameters⟩ with linkedList := some 1 }, rfl, rfl,
    ⟨rfl, pairwise_singleton _ _, rfl, fun epoch => ?_, fun epoch node found => ?_, ?_⟩,
      fun epoch node found => ?_, ?_⟩
  · simp [Database.put, Database.empty, update_apply]
  · simp only [Database.put, Database.empty, update_apply] at found
    split at found
    · obtain rfl := Option.some.inj found
      exact (by assumption : epoch = 1).symm
    · cases found
  · exact ⟨rfl, rfl, trivial⟩
  · simp only [Database.put, Database.empty, update_apply] at found
    split at found
    · obtain rfl := Option.some.inj found
      rfl
    · cases found
  · simp

/-- The last node is the first one or that of an update. -/
def Recent (updates : List Update) (last : ℕ) : Prop :=
  last = 1 ∨ ∃ update ∈ updates, update.epoch = last

section

variable (timeline : Timeline strconv db updates front last)

include timeline

theorem Timeline.loadStorage (pos : 1 ≤ epoch) :
    loadStorage db epoch = .ok (inForce strconv updates epoch) := by
  have listed := timeline.toListed
  obtain ⟨lastNode, stored⟩ := listed.stored listed.last_mem
  obtain ⟨node, walked, found, reached, greatest⟩ := listed.walkBack pos .invalid stored
  have same : inForce strconv updates node.thisEpoch = inForce strconv updates epoch :=
    inForce_eq fun update mem =>
      ⟨fun le => le.trans reached, fun le => greatest update.epoch (timeline.covered update mem) le⟩
  have loaded : loadRawStorage db epoch = .ok (inForce strconv updates epoch) := by
    simp only [loadRawStorage, ok_iff]
    exact ⟨(), by omega, last, listed.getLinkedList, lastNode, listed.getNode stored, node, walked,
      (timeline.values _ _ found).trans same⟩
  rw [Dynamics.loadStorage, loaded]

theorem Timeline.amend (keys : front ++ [last] = before ++ update.epoch :: after) :
    Timeline strconv (db.amend strconv update (update.epoch :: after)) (updates ++ [update]) front
      last where
  toListed := timeline.toListed.amend _
  values epoch amended found := by
    obtain ⟨node, stored, rfl⟩ := Database.amend_some found
    obtain ⟨below, above⟩ := timeline.order keys
    have value := timeline.values epoch node stored
    rw [inForce_append]
    have place : epoch ∈ update.epoch :: after ↔ update.epoch ≤ epoch := by
      have mem := timeline.mem stored
      rw [keys, mem_append] at mem
      constructor
      · intro inside
        rcases mem_cons.mp inside with rfl | inside
        · exact le_rfl
        · exact (above epoch inside).le
      · intro le
        rcases mem with inside | inside
        · exact absurd (below epoch inside) (by omega)
        · exact inside
    by_cases due : update.epoch ≤ epoch
    · rw [if_pos (place.mpr due), if_pos due, ← value]
      rfl
    · rw [if_neg (fun inside => due (place.mp inside)), if_neg due, value]
  covered other mem := by
    rcases mem_append.mp mem with earlier | same
    · exact timeline.covered other earlier
    · rw [mem_singleton.mp same, keys]
      simp

theorem Timeline.update_at
    (checked : checkUpdate strconv update = .ok ()) (mem : update.epoch ∈ front ++ [last]) :
    ∃ db', updateStorageValue strconv db update = .ok db' ∧
      Timeline strconv db' (updates ++ [update]) front last := by
  have listed := timeline.toListed
  obtain ⟨before, after, keys⟩ := append_of_mem mem
  obtain ⟨lastNode, lastStored⟩ := listed.stored listed.last_mem
  obtain ⟨node, walked, found, reached, greatest⟩ :=
    listed.walkBack (listed.pos mem) .invalidUpdateValue lastStored
  have same : update.epoch = node.thisEpoch :=
    le_antisymm (greatest update.epoch mem le_rfl) reached
  have distinct : (update.epoch :: after).Nodup := by
    have distinct := listed.sorted.imp fun less => less.ne
    rw [keys, ← Nodup, nodup_append] at distinct
    exact distinct.2.1
  have within : ∀ other ∈ update.epoch :: after, other ∈ front ++ [last] := fun other inside => by
    rw [keys]
    exact mem_append_right _ inside
  have replayed : replay strconv update (last + 1) db node =
      .ok (db.amend strconv update (update.epoch :: after)) := by
    refine replay_eq checked distinct (fun other inside => ?_) (keys ▸ listed.linked).suffix ?_
      (same ▸ found) ?_
    · obtain ⟨stored, otherFound⟩ := listed.stored (within other inside)
      exact ⟨stored, otherFound, listed.names other stored otherFound, listed.isValid otherFound⟩
    · have ends := congrArg getLast? keys
      rw [getLast?_concat, getLast?_append_cons] at ends
      exact ends.symm
    · have bound := listed.length_le
      rw [keys, length_append, length_cons] at bound
      omega
  refine ⟨_, ?_, timeline.amend keys⟩
  simp only [updateStorageValue, bind_ok_iff]
  refine ⟨last, listed.getLinkedList, lastNode, listed.getNode lastStored, node, walked, ?_⟩
  rw [if_pos same]
  exact replayed

theorem Timeline.extend (found : db.nodes last = some node) (later : last < update.epoch) :
    Timeline strconv (db.extend node update.epoch (node.rawStorage.apply strconv update))
      (updates ++ [update])
      (front ++ [last]) update.epoch where
  toListed := timeline.toListed.extend found later _
  values key stored holds := by
    have name := timeline.names last node found
    have before : ∀ key ∈ front ++ [last], ¬ update.epoch ≤ key := fun key mem => by
      have bound := timeline.le_last mem
      omega
    rw [db.extend_nodes _ name] at holds
    rw [inForce_append]
    split at holds
    · rename_i same
      obtain rfl := Option.some.inj holds
      rw [if_pos same.ge, timeline.values last node found, same]
      refine congrArg (fun rs => RawStorage.apply strconv rs update) (inForce_eq fun other mem =>
        ?_)
      have bound := timeline.le_last (timeline.covered other mem)
      constructor
      · intro _
        omega
      · intro _
        exact bound
    · split at holds
      · rename_i same
        obtain rfl := Option.some.inj holds
        rw [if_neg (before key (by rw [same]; exact timeline.last_mem)), same]
        exact timeline.values last node found
      · rw [if_neg (before key (timeline.mem holds))]
        exact timeline.values key stored holds
  covered other mem := by
    rcases mem_append.mp mem with earlier | same
    · exact mem_append_left _ (timeline.covered other earlier)
    · rw [mem_singleton.mp same]
      exact mem_append_right _ (mem_singleton.mpr rfl)

theorem Timeline.update_after
    (checked : checkUpdate strconv update = .ok ()) (later : last < update.epoch) :
    ∃ db', updateStorageValue strconv db update = .ok db' ∧
      Timeline strconv db' (updates ++ [update]) (front ++ [last]) update.epoch := by
  have listed := timeline.toListed
  obtain ⟨lastNode, lastStored⟩ := listed.stored listed.last_mem
  obtain ⟨node, walked, found, _, greatest⟩ :=
    listed.walkBack (by omega : 1 ≤ update.epoch) .invalidUpdateValue lastStored
  have same : node.thisEpoch = last :=
    le_antisymm (listed.le_last (listed.mem found)) (greatest last listed.last_mem later.le)
  rw [same] at found
  have added : addUpdated strconv db update node =
      .ok (db.extend node update.epoch (node.rawStorage.apply strconv update)) := by
    rw [addUpdated, updateValue_ok checked]
    exact addNode_after listed found later _
  refine ⟨_, ?_, timeline.extend found later⟩
  simp only [updateStorageValue, bind_ok_iff]
  refine ⟨last, listed.getLinkedList, lastNode, listed.getNode lastStored, node, walked, ?_⟩
  rw [if_neg (by omega), if_pos ((listed.isHead_iff found).mpr rfl)]
  simp only [added, ok_iff, Database.setLinkedList]
  exact ⟨_, rfl, (), by omega, (), by omega, rfl⟩

theorem Timeline.step (recent : Recent updates last) (checked : checkUpdate strconv update = .ok ())
    (inOrder : InOrder updates update) :
    ∃ db' front' last', updateStorageValue strconv db update = .ok db' ∧
      Timeline strconv db' (updates ++ [update]) front' last' ∧
        Recent (updates ++ [update]) last' := by
  by_cases mem : update.epoch ∈ front ++ [last]
  · obtain ⟨db', ran, timeline'⟩ := timeline.update_at checked mem
    refine ⟨db', front, last, ran, timeline', ?_⟩
    rcases recent with first | ⟨earlier, listed, same⟩
    · exact .inl first
    · exact .inr ⟨earlier, mem_append_left _ listed, same⟩
  · have first : 1 ∈ front ++ [last] := mem_of_mem_head? (by rw [timeline.first]; rfl)
    have later : last < update.epoch := by
      rcases inOrder with same | ⟨earlier, listed, same⟩ | later
      · exact absurd (same ▸ first) mem
      · exact absurd (same ▸ timeline.covered earlier listed) mem
      · rcases recent with one | ⟨earlier, listed, same⟩
        · have pos : update.epoch ≠ 0 := by
            simp only [checkUpdate, ok_iff] at checked
            exact checked.choose_spec.1
          have apart : update.epoch ≠ 1 := fun same => mem (same ▸ first)
          omega
        · exact same ▸ later earlier listed
    obtain ⟨db', ran, timeline'⟩ := timeline.update_after checked later
    exact ⟨db', _, _, ran, timeline', .inr ⟨update, by simp, rfl⟩⟩

end

theorem Run.timeline_of_ne (run : Run strconv db updates) : (db = .empty ∧ updates = []) ∨
    ∃ front last, Timeline strconv db updates front last ∧ Recent updates last := by
  induction run with
  | empty => exact .inl ⟨rfl, rfl⟩
  | @update db db' updates update run inOrder ran ih =>
    simp only [updateStorage, bind_ok_iff] at ran
    obtain ⟨_, checked, middle, created, ran⟩ := ran
    have started : ∃ front last, Timeline strconv middle updates front last ∧
        Recent updates last := by
      rcases ih with ⟨rfl, rfl⟩ | ⟨front, last, timeline, recent⟩
      · obtain ⟨db, _, created', timeline⟩ := createLinkedList_ok
        obtain rfl := Except.ok.inj (created.symm.trans created')
        exact ⟨[], 1, timeline, .inl rfl⟩
      · rw [initialized, timeline.getLinkedList] at created
        obtain rfl := Except.ok.inj created
        exact ⟨front, last, timeline, recent⟩
    obtain ⟨front, last, timeline, recent⟩ := started
    obtain ⟨db', front', last', success', timeline', recent'⟩ :=
      timeline.step recent checked inOrder
    obtain rfl := Except.ok.inj (ran.symm.trans success')
    exact .inr ⟨front', last', timeline', recent'⟩

/-- While updates come in order, every epoch has its parameters, and the stored nodes are one doubly
linked list. -/
theorem Run.loadStorage_exact (run : Run strconv db updates) :
    (∀ epoch, 1 ≤ epoch → loadStorage db epoch = .ok (inForce strconv updates epoch)) ∧
      (updates ≠ [] → ∃ front last, Listed db front last) := by
  rcases run.timeline_of_ne with ⟨rfl, rfl⟩ | ⟨front, last, timeline, _⟩
  · refine ⟨fun epoch pos => ?_, fun nonempty => absurd rfl nonempty⟩
    have missing : loadRawStorage .empty epoch = .error .keyNotPresent := by
      rw [loadRawStorage, require_of (by omega : epoch ≠ 0)]
      rfl
    rw [loadStorage, missing]
    rfl
  · exact ⟨fun epoch pos => timeline.loadStorage pos, fun _ => ⟨front, last, timeline.toListed⟩⟩

def sampleStrconv : Strconv where
  parseUint32 _ := none
  parseInt64 _ := none
  parseBigInt text := if text = "100" then some 100 else none

def minTxFeeFrom (epoch : ℕ) : Update := ⟨.minTxFeeType, "100", epoch⟩

def sampleUpdates : List Update :=
    [minTxFeeFrom 3, ⟨.valueStoreFeeType, "100", 5⟩, ⟨.dataStoreEpochFeeType, "100", 7⟩]

theorem Run.loadStorage_exact_sample : ∃ db, Run sampleStrconv db sampleUpdates ∧
    loadStorage db 6 = .ok { RawStorage.standardParameters with
      minTxFee := 100, valueStoreFee := 100 } := by
  have ran : (sampleUpdates.foldlM (updateStorage sampleStrconv) .empty).isOk =
    true := by decide +kernel
  cases stored : sampleUpdates.foldlM (updateStorage sampleStrconv) .empty with
  | error => rw [stored] at ran; cases ran
  | ok db =>
    obtain ⟨first, one, rest⟩ := bind_ok_iff.mp stored
    obtain ⟨second, two, rest⟩ := bind_ok_iff.mp rest
    obtain ⟨third, three, rest⟩ := bind_ok_iff.mp rest
    have run : Run sampleStrconv third sampleUpdates :=
      .update (.update (.update .empty (by decide) one) (by decide) two) (by decide) three
    exact ⟨third, run, (run.loadStorage_exact.1 6 (by decide)).trans (by decide +kernel)⟩

/-- The second update is for an earlier epoch, and is lost there. -/
theorem earlier_update_lost : (do
    let db ← updateStorage sampleStrconv .empty ⟨.valueStoreFeeType, "100", 5⟩
    let db ← updateStorage sampleStrconv db (minTxFeeFrom 3)
    loadStorage db 3) = .ok .standardParameters ∧
    inForce sampleStrconv [⟨.valueStoreFeeType, "100", 5⟩, minTxFeeFrom 3] 3 =
      { RawStorage.standardParameters with minTxFee := 100 } := by
  constructor <;> decide +kernel

end AliceNet.Dynamics
