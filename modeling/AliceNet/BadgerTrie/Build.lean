import AliceNet.BadgerTrie.Keys

/-! The ends of an update: a shortcut, an interior node, or a shortcut that moves up. -/

namespace AliceNet.BadgerTrie

open SparseTrie MerkleTrie Outcome

/-- The slots with the two children of slot `i` replaced. -/
def pair (slots : ℕ → Option Node) (i : ℕ) (left right : Option Node) : ℕ → Option Node :=
  Function.update (Function.update slots (2 * i + 2) right) (2 * i + 1) left

@[simp] theorem pair_left : pair slots i left right (2 * i + 1) = left := by
  simp [pair]

@[simp] theorem pair_right : pair slots i left right (2 * i + 2) = right := by
  simp [pair]

theorem pair_other (notLeft : j ≠ 2 * i + 1) (notRight : j ≠ 2 * i + 2) :
    pair slots i left right j = slots j := by
  simp [pair, notLeft, notRight]

theorem pair_comm : Function.update (Function.update slots (2 * i + 1) left) (2 * i + 2) right =
    pair slots i left right :=
  Function.update_comm (by omega) _ _ _

theorem pair_frame (outside : ¬ Below i j) : pair slots i left right j = slots j :=
  pair_other (fun same => outside (same ▸ below_left i)) fun same => outside (same ▸ below_right i)

section

variable {hash : Bytes → Bytes32} {hashed : Set Bytes} {db : CacheDB}

theorem InBatch.pair_under (within : InBatch hash deep slots c n t)
    (child : c = 2 * i + 1 ∨ c = 2 * i + 2) :
    InBatch hash deep (pair slots i left right) c n t := by
  refine within.congr fun j below => ?_
  have lower := below.two_mul_lt
  exact pair_other (by omega) (by omega)

theorem InBatch.clear (within : InBatch hash deep slots c n (.leaf key value)) :
    InBatch hash deep (pair slots c none none) c n .empty := by
  cases deep with
  | zero => trivial
  | succ deep =>
    exact ⟨pair_left, pair_right, within.2.2.1.pair_under (.inl rfl),
      within.2.2.2.pair_under (.inr rfl)⟩

/-- The two children of slot `i`, in either order. -/
def Siblings (i c c' : ℕ) : Prop :=
  (c = 2 * i + 1 ∧ c' = 2 * i + 2) ∨ (c = 2 * i + 2 ∧ c' = 2 * i + 1)

theorem InBatch.pair_sibling (within : InBatch hash deep slots c n t) (siblings : Siblings i c c') :
    InBatch hash deep (pair slots c' left right) c n t := by
  refine within.congr fun j below => pair_frame fun below' => ?_
  rcases siblings with ⟨rfl, rfl⟩ | ⟨rfl, rfl⟩
  · exact below.disjoint below'
  · exact below'.disjoint below

private theorem storeNode_filed (kept : Filed db word) :
    Filed (storeNode db batch h root) word := by
  unfold storeNode
  split
  · exact kept
  · by_cases same : word = h.word
    · exact ⟨batch, by simp [loadBatch, same]⟩
    · simpa [Filed, loadBatch, same] using kept

private theorem storeNode_self (old : root = some h → Filed db h.word) :
    Filed (storeNode db batch h root) h.word := by
  unfold storeNode
  split
  · rename_i same
    exact old same.symm
  · exact ⟨batch, by simp [loadBatch]⟩

private theorem storeNode_sound (sound : Sound hash hashed db) (fits : Fits n t)
    (inputs : (scheme hash).inputs n t ⊆ hashed) (encodes : Encodes hash batch n t)
    (word : (scheme hash).digest n t = h.word) : Sound hash hashed (storeNode db batch h root) := by
  unfold storeNode
  split
  · exact sound
  · intro other loaded ran
    by_cases same : other = h.word
    · have filed : batch = loaded := by simpa [loadBatch, same] using ran
      subst filed same
      exact ⟨n, t, fits, word, inputs, encodes⟩
    · exact sound other loaded (by simpa [loadBatch, same] using ran)

structure Built (hash : Bytes → Bytes32) (hashed : Set Bytes) (n : ℕ) (t : Tree) (db : CacheDB)
    (batch : Batch) (i : ℕ) (result : MResult) : Prop where
  update : result.update = ref hash n t
  sound : Sound hash hashed result.db
  filed : ∀ word, Filed db word → Filed result.db word
  represents : Represents hash hashed result.db n t
  inBatch : n % 4 ≠ 0 → InBatch hash (n % 4) result.batch.slots i n t
  frame : ∀ j, ¬ Below i j → result.batch.slots j = batch.slots j

theorem Built.of_store (sound : Sound hash hashed db) (fits : Fits n t)
    (inputs : (scheme hash).inputs n t ⊆ hashed)
    (stored : ∀ l r, t = .node l r → Stored hash db (n - 1) l ∧ Stored hash db (n - 1) r)
    (node : ref hash n t = some h) (old : n % 4 = 0 → root = some h → Filed db h.word)
    (top : n % 4 = 0 → i = 0) (shortcut : n % 4 = 0 → batch'.shortcut = isLeaf t)
    (inBatch : InBatch hash (levels n) batch'.slots i n t)
    (frame : ∀ j, ¬ Below i j → batch'.slots j = batch.slots j)
    (store : db' = if n % 4 = 0 then storeNode (db.record input) batch' h root else db.record input)
    (deleted : Bool) : Built hash hashed n t db batch i ⟨some h, deleted, batch', db'⟩ := by
  have nonempty : t ≠ .empty := fun same => by simp [same, ref] at node
  have word : (scheme hash).digest n t = h.word := by
    have word : (ref hash n t).map Node.word = some ((scheme hash).digest n t) := ref_word nonempty
    rw [node] at word
    exact (Option.some.inj word).symm
  subst store
  generalize stored' : (if n % 4 = 0 then storeNode (db.record input) batch' h root else
    db.record input) = db'
  have filed : ∀ word, Filed db word → Filed db' word := by
    intro word kept
    rw [← stored']
    split
    · exact storeNode_filed kept
    · exact kept
  have self : n % 4 = 0 → Filed db' ((scheme hash).digest n t) := by
    intro zero
    rw [word, ← stored', if_pos zero]
    exact storeNode_self (old zero)
  refine ⟨node.symm, ?_, filed, ⟨fits, inputs, ?_⟩,
    fun inner => by simpa [levels, inner] using inBatch, frame⟩
  · rw [← stored']
    split
    · rename_i zero
      refine storeNode_sound sound fits inputs ⟨shortcut zero, ?_⟩ word
      simpa [levels, zero, top zero] using inBatch
    · exact sound
  · cases t with
    | empty => trivial
    | leaf key value => exact self
    | node l r =>
      obtain ⟨left, right⟩ := stored l r rfl
      exact ⟨self, left.mono filed, right.mono filed⟩

theorem leafHash_eq : leafHash hash db kv root batch i n =
    let h : Node := ⟨hash (leafInput kv.key kv.value n), some .shortcut⟩
    let batch' : Batch := ⟨if n % 4 = 0 then true else batch.shortcut,
      pair batch.slots i (some ⟨kv.key, some .data⟩) (some ⟨kv.value, some .data⟩)⟩
    let db' := db.record (leafInput kv.key kv.value n)
    (h, batch', if n % 4 = 0 then storeNode db' batch' h root else db') := by
  unfold leafHash
  split <;> rfl

theorem storeNode_hashed : (storeNode db batch h root).hashed = db.hashed := by
  unfold storeNode
  split <;> rfl

theorem storeNode_db : (storeNode db batch h root).db = db.db := by
  unfold storeNode
  split <;> rfl

theorem recorded_of_log (log : ∀ x ∈ (if n % 4 = 0 then storeNode (db.record input) batch h root
    else db.record input).hashed, x ∈ hashed) : input ∈ hashed := by
  apply log
  split <;> simp [storeNode_hashed, CacheDB.record]

theorem leafHash_built (sound : Sound hash hashed db)
    (empty : InBatch hash (levels n) batch.slots i n .empty)
    (old : n % 4 = 0 → ∀ h, root = some h → Filed db h.word) (top : n % 4 = 0 → i = 0)
    (ran : leafHash hash db kv root batch i n = (node, batch', db'))
    (log : ∀ input ∈ db'.hashed, input ∈ hashed) (deleted : Bool) :
    Built hash hashed n (.leaf kv.key kv.value) db batch i ⟨some node, deleted, batch', db'⟩ := by
  rw [leafHash_eq] at ran
  obtain ⟨rfl, rfl, rfl⟩ := ran
  have inputs : (scheme hash).inputs n (.leaf kv.key kv.value) ⊆ hashed :=
    Set.singleton_subset_iff.mpr (recorded_of_log log)
  refine Built.of_store sound (.leaf _ _) inputs (by simp) rfl (fun zero => old zero _) top ?_ ?_ ?_
    rfl deleted
  · intro zero
    simp [zero, isLeaf]
  · obtain ⟨deep, pos⟩ := levels_pos n
    rw [pos] at empty ⊢
    exact ⟨pair_left, pair_right, empty.2.2.1.pair_under (.inl rfl),
      empty.2.2.2.pair_under (.inr rfl)⟩
  · intro j outside
    exact pair_frame outside

/-- The word that stands for a child when its parent is hashed. -/
def childWord (hash : Bytes → Bytes32) : Option Node → Bytes32
  | none => DefaultLeaf hash
  | some node => node.word

private theorem childWord_ref : childWord hash (ref hash n t) = (scheme hash).digest n t := by
  cases t <;> rfl

theorem interiorHash_eq (child : left ≠ none ∨ right ≠ none) :
    interiorHash hash db left right root batch i n =
    let input := nodeInput (childWord hash left) (childWord hash right)
    let h : Node := ⟨hash input, some .interior⟩
    let batch' : Batch :=
      ⟨if n % 4 = 0 then false else batch.shortcut, pair batch.slots i left right⟩
    let db' := db.record input
    .ok (h, batch', if n % 4 = 0 then storeNode db' batch' h root else db') := by
  unfold interiorHash
  cases left with
  | none =>
    cases right with
    | none => simp at child
    | some right =>
      by_cases top : n % 4 = 0 <;> simp only [top, if_true, if_false] <;> rfl
  | some left =>
    cases right with
    | none | some right =>
      by_cases top : n % 4 = 0 <;> simp only [top, if_true, if_false] <;> rfl

theorem interiorHash_child (ran : interiorHash hash db left right root batch i n = .ok written) :
    left ≠ none ∨ right ≠ none := by
  by_contra neither
  simp only [not_or, not_not] at neither
  obtain ⟨rfl, rfl⟩ := neither
  simp [interiorHash, bind, Except.bind] at ran

private theorem interiorHash_built (sound : Sound hash hashed db)
    (leftRep : Represents hash hashed db n l) (rightRep : Represents hash hashed db n r)
    (leftIn : InBatch hash (n % 4) batch.slots (2 * i + 1) n l)
    (rightIn : InBatch hash (n % 4) batch.slots (2 * i + 2) n r)
    (old : (n + 1) % 4 = 0 → ∀ h, root = some h → Filed db h.word) (top : (n + 1) % 4 = 0 → i = 0)
    (ran : interiorHash hash db (ref hash n l) (ref hash n r) root batch i (n + 1) =
      .ok (node, batch', db'))
    (log : ∀ input ∈ db'.hashed, input ∈ hashed) (deleted : Bool) :
    Built hash hashed (n + 1) (.node l r) db batch i ⟨some node, deleted, batch', db'⟩ := by
  rw [interiorHash_eq (interiorHash_child ran), childWord_ref, childWord_ref] at ran
  obtain ⟨rfl, rfl, rfl⟩ := ran
  have inputs : (scheme hash).inputs (n + 1) (.node l r) ⊆ hashed :=
    Scheme.inputs_node_subset.mpr ⟨recorded_of_log log, leftRep.inputs, rightRep.inputs⟩
  refine Built.of_store sound (.node leftRep.fits rightRep.fits) inputs ?_ rfl (fun zero =>
    old zero _) top ?_ ?_ ?_ rfl deleted
  · rintro _ _ ⟨rfl, rfl⟩
    exact ⟨leftRep.stored, rightRep.stored⟩
  · intro zero
    simp [zero, isLeaf]
  · rw [levels_succ]
    exact ⟨pair_left, pair_right, leftIn.pair_under (.inl rfl), rightIn.pair_under (.inr rfl)⟩
  · intro j outside
    exact pair_frame outside

private theorem loadChildren_shortcut (inj : Set.InjOn hash hashed) (sound : Sound hash hashed db)
    (represents : Represents hash hashed db n (.leaf key value))
    (within : InBatch hash (n % 4) batch.slots c n (.leaf key value))
    (node : ref hash n (.leaf key value) = some shortcut)
    (ran : loadChildren db (some shortcut) n c batch = .ok children) :
    children.lnode = some ⟨key, some .data⟩ ∧ children.rnode = some ⟨value, some .data⟩ := by
  unfold loadChildren at ran
  by_cases top : n % 4 = 0
  · obtain ⟨loaded, found, _, inBatch⟩ := represents.loadBatch inj sound (by simp) top
    obtain rfl := Option.some.inj node
    simp only [top, if_true, found, ok_iff] at ran
    obtain ⟨_, ⟨rfl⟩, rfl⟩ := ran
    exact ⟨inBatch.1, inBatch.2.1⟩
  · obtain ⟨deep, pos⟩ := Nat.exists_eq_succ_of_ne_zero top
    rw [pos] at within
    simp only [top, if_false, pure_ok_iff] at ran
    subst ran
    exact ⟨within.1, within.2.1⟩

def moved (slots : ℕ → Option Node) (key value : Bytes32) (i c : ℕ) : ℕ → Option Node :=
  pair (pair slots i (some ⟨key, some .data⟩) (some ⟨value, some .data⟩)) c none none

private theorem moved_inBatch (siblings : Siblings i c c')
    (here : InBatch hash deep slots c n (.leaf key value))
    (there : InBatch hash deep slots c' n .empty) :
    InBatch hash (deep + 1) (moved slots key value i c) i (n + 1) (.leaf key value) := by
  have cleared : InBatch hash deep (moved slots key value i c) c n .empty := by
    refine InBatch.clear (here.pair_under ?_)
    exact siblings.imp And.left And.left
  have kept : InBatch hash deep (moved slots key value i c) c' n .empty := by
    refine (there.pair_under ?_).pair_sibling (i := i) ?_
    · exact siblings.symm.imp And.right And.right
    · exact siblings.symm.imp And.symm And.symm
  have keySlot : moved slots key value i c (2 * i + 1) = some ⟨key, some .data⟩ := by
    unfold moved
    rw [pair_other (by unfold Siblings at siblings; omega) (by unfold Siblings at siblings; omega),
      pair_left]
  have valueSlot : moved slots key value i c (2 * i + 2) = some ⟨value, some .data⟩ := by
    unfold moved
    rw [pair_other (by unfold Siblings at siblings; omega) (by unfold Siblings at siblings; omega),
      pair_right]
  rcases siblings with ⟨rfl, rfl⟩ | ⟨rfl, rfl⟩
  · exact ⟨keySlot, valueSlot, cleared, kept⟩
  · exact ⟨keySlot, valueSlot, kept, cleared⟩

private theorem moved_frame (siblings : Siblings i c c') (outside : ¬ Below i j) :
    moved slots key value i c j = slots j := by
  unfold moved
  rw [pair_frame fun below => outside ?_, pair_frame outside]
  rcases siblings with ⟨rfl, _⟩ | ⟨rfl, _⟩
  · exact below.of_left
  · exact below.of_right

private theorem moveUpShortcut_built (inj : Set.InjOn hash hashed) (sound : Sound hash hashed db)
    (represents : Represents hash hashed db n (.leaf key value))
    (node : ref hash n (.leaf key value) = some shortcut) (siblings : Siblings i c c')
    (here : InBatch hash (n % 4) batch.slots c n (.leaf key value))
    (there : InBatch hash (n % 4) batch.slots c' n .empty)
    (old : (n + 1) % 4 = 0 → ∀ h, root = some h → Filed db h.word) (top : (n + 1) % 4 = 0 ↔ i = 0)
    (ran : moveUpShortcut hash db shortcut root batch i c (n + 1) = .ok result)
    (log : ∀ input ∈ result.db.hashed, input ∈ hashed) :
    Built hash hashed (n + 1) (.leaf key value) db batch i result ∧ result.deleted = true := by
  simp only [moveUpShortcut, bind_ok_iff, Nat.add_sub_cancel] at ran
  obtain ⟨children, loaded, ran⟩ := ran
  obtain ⟨keySlot, valueSlot⟩ := loadChildren_shortcut inj sound represents here node loaded
  have movedIn := moved_inBatch siblings here there
  simp only [keySlot, valueSlot, Batch.set, pair_comm] at ran
  have single : leafInput key value (n + 1) ∈ result.db.hashed →
      (scheme hash).inputs (n + 1) (.leaf key value) ⊆ hashed :=
    fun recorded => Set.singleton_subset_iff.mpr (log _ recorded)
  split at ran
  · rename_i atTop
    have zero := top.mpr atTop
    obtain rfl := pure_ok_iff.mp ran
    refine ⟨Built.of_store sound (.leaf _ _) (single ?_) (by simp) rfl (fun zero =>
      old zero _) top.mp (fun _ => rfl)
      ?_ ?_ (if_pos zero).symm true, rfl⟩
    · simp [storeNode_hashed, CacheDB.record]
    · rw [levels_succ]
      exact movedIn
    · intro j outside
      exact moved_frame siblings outside
  · rename_i notTop
    have inner : ¬ (n + 1) % 4 = 0 := fun zero => notTop (top.mp zero)
    -- a child at the top of its own batch has no slots below it to clear
    split at ran
    · rename_i boundary
      obtain rfl := pure_ok_iff.mp ran
      refine ⟨Built.of_store sound (.leaf _ _) (single ?_) (by simp) rfl (fun zero =>
        old zero _) top.mp
        (fun zero => absurd zero inner) ?_ ?_ (if_neg inner).symm true, rfl⟩
      · simp [CacheDB.record]
      · rw [levels_succ, boundary]
        exact ⟨pair_left, pair_right, trivial, trivial⟩
      · intro j outside
        exact pair_frame outside
    · obtain rfl := pure_ok_iff.mp ran
      refine ⟨Built.of_store sound (.leaf _ _) (single ?_) (by simp) rfl (fun zero =>
        old zero _) top.mp
        (fun zero => absurd zero inner) ?_ ?_ (if_neg inner).symm true, rfl⟩
      · simp [CacheDB.record]
      · rw [levels_succ]
        exact movedIn
      · intro j outside
        exact moved_frame siblings outside

private theorem closeNode_interior (stays : deleted = false ∨ join l r = .node l r) :
    closeNode hash db (ref hash n l) (ref hash n r) root deleted batch i height = (do
      let (node, batch, db) ← interiorHash hash db (ref hash n l) (ref hash n r) root batch i height
      pure ⟨some node, false, batch, db⟩) := by
  unfold closeNode
  cases deleted with
  | false => rfl
  | true => cases l <;> cases r <;> simp [ref, maybeMoveUpShortcut, join] at stays ⊢

private theorem closeNode_empty (sound : Sound hash hashed db)
    (represents : Represents hash hashed db n .empty)
    (leftIn : InBatch hash (n % 4) batch.slots (2 * i + 1) n .empty)
    (rightIn : InBatch hash (n % 4) batch.slots (2 * i + 2) n .empty)
    (top : (n + 1) % 4 = 0 ↔ i = 0)
    (ran : closeNode hash db none none root true batch i (n + 1) = .ok result) :
    Built hash hashed (n + 1) .empty db batch i result ∧ result.deleted = true := by
  simp only [closeNode, if_true, maybeMoveUpShortcut, ok_iff] at ran
  obtain ⟨_, rfl, ran⟩ := ran
  obtain rfl := pure_ok_iff.mp ran
  refine ⟨⟨rfl, sound, fun _ kept => kept, ⟨.empty, represents.inputs, trivial⟩, fun inner =>
    ?_, fun j outside => ?_⟩, rfl⟩
  · have notTop : i ≠ 0 := fun zero => inner (top.mpr zero)
    have levels : (n + 1) % 4 = n % 4 + 1 := by omega
    simp only [notTop, if_false, Batch.set, pair_comm, levels]
    exact ⟨pair_left, pair_right, leftIn.pair_under (.inl rfl), rightIn.pair_under (.inr rfl)⟩
  · split
    · rfl
    · simp only [Batch.set, pair_comm]
      exact pair_frame outside

theorem closeNode_built (inj : Set.InjOn hash hashed) (sound : Sound hash hashed db)
    (leftRep : Represents hash hashed db n l) (rightRep : Represents hash hashed db n r)
    (leftIn : InBatch hash (n % 4) batch.slots (2 * i + 1) n l)
    (rightIn : InBatch hash (n % 4) batch.slots (2 * i + 2) n r)
    (old : (n + 1) % 4 = 0 → ∀ h, root = some h → Filed db h.word) (top : (n + 1) % 4 = 0 ↔ i = 0)
    (ran : closeNode hash db (ref hash n l) (ref hash n r) root deleted batch i (n + 1) =
      .ok result)
    (log : ∀ input ∈ result.db.hashed, input ∈ hashed) :
    ∃ t, Built hash hashed (n + 1) t db batch i result ∧ ((deleted = false → join l r = .node l r) →
      t = join l r ∧ (result.deleted = false → join l r = .node l r)) := by
  by_cases stays : deleted = false ∨ join l r = .node l r
  · rw [closeNode_interior stays] at ran
    simp only [ok_iff'] at ran
    obtain ⟨node, batch', db', interior, rfl⟩ := ran
    refine ⟨.node l r, interiorHash_built sound leftRep rightRep leftIn rightIn old top.mp interior
      log false, fun kept => ?_⟩
    have whole : join l r = .node l r := stays.elim kept id
    exact ⟨whole.symm, fun _ => whole⟩
  · obtain ⟨notKept, whole⟩ := not_or.mp stays
    obtain rfl : deleted = true := by simpa using notKept
    suffices moved : Built hash hashed (n + 1) (join l r) db batch i result ∧ result.deleted =
        true by
      obtain ⟨built, gone⟩ := moved
      exact ⟨join l r, built, fun _ => ⟨rfl, fun notGone => by simp [gone] at notGone⟩⟩
    cases l with
    | empty =>
      cases r with
      | empty => exact closeNode_empty sound leftRep leftIn rightIn top ran
      | leaf key value =>
        simp only [closeNode, if_true, ref, maybeMoveUpShortcut, ok_iff'] at ran
        obtain ⟨_, ⟨result', movedUp, rfl⟩, ran⟩ := ran
        obtain rfl := pure_ok_iff.mp ran
        exact moveUpShortcut_built inj sound rightRep rfl (.inr ⟨rfl, rfl⟩) rightIn leftIn old top
          movedUp log
      | node _ _ => exact absurd rfl whole
    | leaf key value =>
      cases r with
      | empty =>
        simp only [closeNode, if_true, ref, maybeMoveUpShortcut, ok_iff'] at ran
        obtain ⟨_, ⟨result', movedUp, rfl⟩, ran⟩ := ran
        obtain rfl := pure_ok_iff.mp ran
        exact moveUpShortcut_built inj sound leftRep rfl (.inl ⟨rfl, rfl⟩) leftIn rightIn old top
          movedUp log
      | leaf _ _ | node _ _ => exact absurd rfl whole
    | node _ _ => exact absurd rfl whole

end

end AliceNet.BadgerTrie
