import AliceNet.BadgerTrie.FastSync

/-! Runs of fast sync over the nodes of a committed trie, outstanding roots in any order. -/

namespace AliceNet.BadgerTrie

open SparseTrie MerkleTrie Outcome Relation Option

/-- How far a sync is. -/
structure SnapShot where
  outstanding : List (Bytes32 × ℤ)
  db : NodeDB
  leaves : List LeafNode

def SnapShot.start (root : Bytes32) : SnapShot :=
  ⟨[(root, 0)], fun _ => none, []⟩

/-- The node of any outstanding root is stored, as `s` has it. -/
inductive SyncStep (hash : Bytes → Bytes32) (s : SMT) : SnapShot → SnapShot → Prop
  | store (honest : s.GetNodeDB root = some node)
      (ran : StoreSnapShotNode hash db node root layer = .ok synced) :
      SyncStep hash s ⟨before ++ (root, layer) :: after, db, leaves⟩
        ⟨before ++ after ++ synced.subBatch.map fun word => (Bytes32.ofBytes word, synced.layer),
          synced.db, leaves ++ synced.leaves⟩

inductive Walk (s : SMT) : ℕ → Option Node → Batch → ℕ → Prop
  | root : Walk s TrieHeight s.rootNode Batch.default 0
  | left (walk : Walk s (height + 1) (some node) batch i)
      (loaded : loadChildren s.db (some node) (height + 1) i batch = .ok children)
      (inner : children.isShortcut = false) : Walk s height children.lnode children.batch
        (2 * children.iBatch + 1)
  | right (walk : Walk s (height + 1) (some node) batch i)
      (loaded : loadChildren s.db (some node) (height + 1) i batch = .ok children)
      (inner : children.isShortcut = false) : Walk s height children.rnode children.batch
        (2 * children.iBatch + 2)

/-- A walk comes to the batch that is filed under a hash. -/
def SMT.Reaches (s : SMT) (word : Bytes32) : Prop :=
  ∃ height node batch i, Walk s height (some node) batch i ∧ height % 4 = 0 ∧ node.word = word

/-- The trie `t` of height `n` has the subtree `u` of height `m`. -/
inductive Sub (n : ℕ) (t : Tree) : ℕ → Tree → Prop
  | refl : Sub n t n t
  | left (sub : Sub n t (m + 1) (.node l r)) : Sub n t m l
  | right (sub : Sub n t (m + 1) (.node l r)) : Sub n t m r

theorem Sub.trans (sub : Sub n t m u) (sub' : Sub m u k v) : Sub n t k v := by
  induction sub' with
  | refl => exact sub
  | left _ ih => exact .left ih
  | right _ ih => exact .right ih

theorem Sub.cases_head (sub : Sub (n + 1) t m u) :
    m = n + 1 ∧ u = t ∨ ∃ l r, t = .node l r ∧ (Sub n l m u ∨ Sub n r m u) := by
  generalize eq : n + 1 = n' at sub
  induction sub with
  | refl => exact .inl ⟨rfl, rfl⟩
  | left sub ih =>
    rcases ih with ⟨here, same⟩ | ⟨l, r, same, below⟩
    · obtain rfl : _ = n := Nat.succ_injective (here.trans eq.symm)
      exact .inr ⟨_, _, same.symm, .inl .refl⟩
    · exact .inr ⟨l, r, same, below.imp .left .left⟩
  | right sub ih =>
    rcases ih with ⟨here, same⟩ | ⟨l, r, same, below⟩
    · obtain rfl : _ = n := Nat.succ_injective (here.trans eq.symm)
      exact .inr ⟨_, _, same.symm, .inr .refl⟩
    · exact .inr ⟨l, r, same, below.imp .right .right⟩

theorem Sub.le (sub : Sub n t m u) : m ≤ n := by
  induction sub with
  | refl => exact le_rfl
  | left _ ih | right _ ih => omega

theorem Sub.of_empty (sub : Sub n .empty m u) : u = .empty := by
  induction sub with
  | refl => rfl
  | left _ ih | right _ ih => cases ih

private theorem frontier_zero (nonempty : t ≠ .empty) : frontier 0 t = [t] := by
  cases t with
  | empty => exact absurd rfl nonempty
  | leaf | node => rfl

theorem Sub.frontier (sub : Sub (n + deep) t m u) (low : m ≤ n) (nonempty : u ≠ .empty) :
    ∃ v ∈ frontier deep t, Sub n v m u := by
  induction deep generalizing t with
  | zero =>
    have present : t ≠ .empty := by
      rintro rfl
      exact nonempty sub.of_empty
    exact ⟨t, by simp [frontier_zero present], sub⟩
  | succ deep ih =>
    rcases Sub.cases_head (n := n + deep) sub with ⟨here, _⟩ | ⟨l, r, rfl, left | right⟩
    · exact absurd (here.symm.trans_le low) (by omega)
    · obtain ⟨v, mem, below⟩ := ih left
      exact ⟨v, List.mem_append_left _ mem, below⟩
    · obtain ⟨v, mem, below⟩ := ih right
      exact ⟨v, List.mem_append_right _ mem, below⟩

private theorem sub_of_mem_frontier (n : ℕ) (mem : v ∈ frontier deep t) :
    Sub (n + deep) t n v ∧ v ≠ .empty := by
  induction deep generalizing t with
  | zero =>
    cases t with
    | empty => cases mem
    | leaf | node =>
      rw [List.mem_singleton.mp mem]
      exact ⟨.refl, nofun⟩
  | succ deep ih =>
    cases t with
    | empty | leaf => cases mem
    | node l r =>
      rcases List.mem_append.mp mem with left | right
      · exact ⟨(Sub.left .refl).trans (ih left).1, (ih left).2⟩
      · exact ⟨(Sub.right .refl).trans (ih right).1, (ih right).2⟩

def weight : Tree → ℕ
  | .empty => 0
  | .leaf _ _ => 1
  | .node l r => weight l + weight r + 1

private theorem sum_frontier_le (deep : ℕ) (t : Tree) :
    ((frontier deep t).map weight).sum ≤ weight t := by
  induction deep generalizing t with
  | zero => cases t <;> simp [frontier]
  | succ deep ih =>
    cases t with
    | empty | leaf => simp [frontier]
    | node l r =>
      have left := ih l
      have right := ih r
      simp only [frontier, List.map_append, List.sum_append, weight]
      omega

private theorem sum_frontier_lt (deep : ℕ) (nonempty : t ≠ .empty) :
    ((frontier (deep + 1) t).map weight).sum < weight t := by
  cases t with
  | empty => exact absurd rfl nonempty
  | leaf => simp [frontier, weight]
  | node l r =>
    have left := sum_frontier_le deep l
    have right := sum_frontier_le deep r
    simp only [frontier, List.map_append, List.sum_append, weight]
    omega

section

variable {hash : Bytes → Bytes32} {hashed : Set Bytes} {s : SMT} {map : Bytes32 → Option Bytes32}

theorem Represents.sub (represents : Represents hash hashed db n t) (sub : Sub n t m u) :
    Represents hash hashed db m u := by
  induction sub with
  | refl => exact represents
  | left _ ih => exact ih.left
  | right _ ih => exact ih.right

theorem Full.sub (full : Full t) (sub : Sub n t m u) : Full u := by
  induction sub with
  | refl => exact full
  | left _ ih => exact ih.2.1
  | right _ ih => exact ih.2.2

theorem Walk.sub (walk : Walk s m node batch i) (backed : Backed hash hashed s t)
    (injective : Set.InjOn hash hashed) :
    ∃ u, Sub TrieHeight t m u ∧ Placed hash m u node batch i := by
  have child : ∀ {m node batch i children u}, Sub TrieHeight t (m + 1) u →
      Placed hash (m + 1) u (some node) batch i →
      loadChildren s.db (some node) (m + 1) i batch = .ok children → children.isShortcut = false →
      ∃ l r, u = .node l r ∧ Loaded hash (m + 1) (.node l r) batch i children := by
    intro m node batch i children u sub placed loaded inner
    obtain ⟨children', again, spec⟩ :=
      loadChildren_spec injective backed.sound (backed.represents.sub sub) placed
    obtain rfl := Except.ok.inj (loaded.symm.trans again)
    cases u with
    | empty => simpa [ref] using placed.word
    | leaf => simpa [isLeaf] using inner.symm.trans spec.shortcut
    | node l r => exact ⟨l, r, rfl, spec⟩
  induction walk with
  | root => exact ⟨t, .refl, backed.placed⟩
  | left _ loaded inner ih =>
    obtain ⟨u, sub, placed⟩ := ih
    obtain ⟨l, r, rfl, spec⟩ := child sub placed loaded inner
    exact ⟨l, .left sub, spec.placed.1⟩
  | right _ loaded inner ih =>
    obtain ⟨u, sub, placed⟩ := ih
    obtain ⟨l, r, rfl, spec⟩ := child sub placed loaded inner
    exact ⟨r, .right sub, spec.placed.2⟩

theorem Sub.walk (sub : Sub TrieHeight t m u) (backed : Backed hash hashed s t)
    (injective : Set.InjOn hash hashed) :
    ∃ root batch i, Walk s m root batch i ∧ Placed hash m u root batch i := by
  have child : ∀ {m l r}, Sub TrieHeight t (m + 1) (.node l r) →
      (∃ root batch i, Walk s (m + 1) root batch i ∧ Placed hash (m + 1) (.node l r) root batch i) →
      ∃ node batch i children, Walk s (m + 1) (some node) batch i ∧
        loadChildren s.db (some node) (m + 1) i batch = .ok children ∧ children.isShortcut = false ∧
        Loaded hash (m + 1) (.node l r) batch i children := by
    rintro m l r sub ⟨root, batch, i, walk, placed⟩
    obtain ⟨node, rfl, _⟩ := map_eq_some_iff.mp placed.word
    obtain ⟨children, loaded, spec⟩ :=
      loadChildren_spec injective backed.sound (backed.represents.sub sub) placed
    exact ⟨node, batch, i, children, walk, loaded, spec.shortcut, spec⟩
  induction sub with
  | refl => exact ⟨_, _, _, .root, backed.placed⟩
  | left sub ih =>
    obtain ⟨node, batch, i, children, walk, loaded, inner, spec⟩ := child sub ih
    exact ⟨_, _, _, .left walk loaded inner, spec.placed.1⟩
  | right sub ih =>
    obtain ⟨node, batch, i, children, walk, loaded, inner, spec⟩ := child sub ih
    exact ⟨_, _, _, .right walk loaded inner, spec.placed.2⟩

theorem Backed.reaches_iff (backed : Backed hash hashed s t) (injective : Set.InjOn hash hashed) :
    s.Reaches word ↔ ∃ m u, Sub TrieHeight t m u ∧ m % 4 = 0 ∧ u ≠ .empty ∧
      (scheme hash).digest m u = word := by
  constructor
  · rintro ⟨m, node, batch, i, walk, top, rfl⟩
    obtain ⟨u, sub, placed⟩ := walk.sub backed injective
    have nonempty : u ≠ .empty := by
      rintro rfl
      simpa [ref] using placed.word
    have same := placed.word.trans (ref_word nonempty)
    exact ⟨m, u, sub, top, nonempty, (some.inj same).symm⟩
  · rintro ⟨m, u, sub, top, nonempty, rfl⟩
    obtain ⟨root, batch, i, walk, placed⟩ := sub.walk backed injective
    obtain ⟨node, rfl, same⟩ := map_eq_some_iff.mp (placed.word.trans (ref_word nonempty))
    exact ⟨m, node, batch, i, walk, top, same⟩

/-- The subtree `u` of height `m` stands at the top of a batch. -/
structure Top (t : Tree) (m : ℕ) (u : Tree) : Prop where
  sub : Sub TrieHeight t m u
  aligned : m % 4 = 0
  nonempty : u ≠ .empty

/-- A trie whose nodes can be copied: they are all written. -/
structure Source (hash : Bytes → Bytes32) (hashed : Set Bytes) (s : SMT) (t : Tree) : Prop
    extends Backed hash hashed s t where
  injective : Set.InjOn hash hashed
  full : Full t
  committed : s.db.updatedNodes = fun _ => none

theorem Source.getNodeDB (source : Source hash hashed s t) (top : Top t m u) :
    ∃ batch, s.GetNodeDB ((scheme hash).digest m u) = some (serializeBatch batch.raw) ∧
      Encodes hash batch m u := by
  obtain ⟨batch, loaded, encodes⟩ :=
    (source.represents.sub top.sub).loadBatch source.injective source.sound top.nonempty top.aligned
  refine ⟨batch, ?_, encodes⟩
  simp only [loadBatch, source.committed] at loaded
  cases found : s.db.db ((scheme hash).digest m u) with
  | none =>
    rw [found] at loaded
    cases loaded
  | some stored =>
    rw [found] at loaded
    obtain rfl := Except.ok.inj loaded
    simp [SMT.GetNodeDB, found]

/-- How far a sync is: the outstanding subtrees with their layers. -/
structure Syncing (hash : Bytes → Bytes32) (s : SMT) (t : Tree) (p : SnapShot)
  (pending : List (ℕ × Tree)) : Prop where
  outstanding : p.outstanding = pending.map fun item =>
    ((scheme hash).digest (256 - 4 * item.1) item.2, (item.1 : ℤ))
  within : ∀ item ∈ pending, item.1 ≤ 64 ∧ Top t (256 - 4 * item.1) item.2
  stored : ∀ word node, p.db word = some node →
    s.GetNodeDB word = some node ∧ ∃ m u, Top t m u ∧ (scheme hash).digest m u = word
  covered : ∀ m u, Top t m u → p.db ((scheme hash).digest m u) ≠ none ∨
    ∃ item ∈ pending, Sub (256 - 4 * item.1) item.2 m u
  leaves : (t.entries.map LeafNode.of).Perm
    (p.leaves ++ (pending.flatMap fun item => item.2.entries).map LeafNode.of)

theorem Syncing.start (nonempty : t ≠ .empty) :
    Syncing hash s t (.start ((scheme hash).digest TrieHeight t)) [(0, t)] where
  outstanding := rfl
  within := by
    rintro item mem
    rw [List.mem_singleton.mp mem]
    exact ⟨by norm_num, .refl, by norm_num, nonempty⟩
  stored := nofun
  covered := fun m u top => .inr ⟨(0, t), by simp, top.sub⟩
  leaves := by simp [SnapShot.start]

theorem Syncing.store (syncing : Syncing hash s t p pending) (source : Source hash hashed s t)
    (mem : (layer, u) ∈ pending) (db : NodeDB) :
    ∃ node, s.GetNodeDB ((scheme hash).digest (256 - 4 * layer) u) = some node ∧
      StoreSnapShotNode hash db node ((scheme hash).digest (256 - 4 * layer) u) layer =
        .ok ⟨Function.update db ((scheme hash).digest (256 - 4 * layer) u) (some node),
          words hash (256 - 4 * layer - 4) (frontier 4 u), layer + 1,
            (shallow 4 u).map LeafNode.of⟩ := by
  obtain ⟨bound, top⟩ := syncing.within _ mem
  obtain ⟨batch, stored, encodes⟩ := source.getNodeDB top
  refine ⟨_, stored, ?_⟩
  exact StoreSnapShotNode_raw encodes (source.represents.sub top.sub).fits (source.full.sub top.sub)
    top.nonempty (by simp only; omega) db

private theorem le_of_mem_frontier (fits : Fits n t) (mem : v ∈ frontier deep t) : deep ≤ n := by
  induction deep generalizing n t with
  | zero => exact Nat.zero_le n
  | succ deep ih =>
    cases fits with
    | empty | leaf => cases mem
    | node left right =>
      rcases List.mem_append.mp mem with below | below
      · exact Nat.succ_le_succ (ih left below)
      · exact Nat.succ_le_succ (ih right below)

theorem Top.below (top : Top t m u) (fits : Fits m u) (mem : v ∈ frontier 4 u) :
    4 ≤ m ∧ Top t (m - 4) v := by
  have four : 4 ≤ m := le_of_mem_frontier fits mem
  obtain ⟨m, rfl⟩ := Nat.exists_eq_add_of_le' four
  obtain ⟨sub, nonempty⟩ := sub_of_mem_frontier m mem
  have aligned := top.aligned
  exact ⟨four, top.sub.trans sub, by omega, nonempty⟩

theorem Top.frontier_of_sub (lower : Top t m v) (top : Top t n u) (fits : Fits n u)
    (sub : Sub n u m v) (apart : m ≠ n ∨ v ≠ u) : ∃ w ∈ frontier 4 u, Sub (n - 4) w m v := by
  have strict : m < n := by
    cases sub with
    | refl => simp at apart
    | left sub | right sub => exact sub.le
  have aligned := lower.aligned
  have aligned' := top.aligned
  obtain ⟨k, rfl⟩ : ∃ k, n = k + 4 := ⟨n - 4, by omega⟩
  exact sub.frontier (by omega) lower.nonempty

section

variable (syncing : Syncing hash s t p pending) (source : Source hash hashed s t)

include syncing source

theorem Syncing.step (step : SyncStep hash s p q) :
    ∃ pending', Syncing hash s t q pending' ∧
      (pending'.map fun item => weight item.2).sum < (pending.map fun item =>
        weight item.2).sum := by
  obtain @⟨root, node, db, layer, synced, before, after, leaves, honest, ran⟩ := step
  obtain ⟨front, rest, rfl, rfl, split⟩ := List.append_eq_map_iff.mp syncing.outstanding
  obtain ⟨⟨layer, u⟩, back, rfl, same, rfl⟩ := List.map_eq_cons_iff.mp split
  obtain ⟨rfl, rfl⟩ := Prod.mk.inj same
  have mem : (layer, u) ∈ front ++ (layer, u) :: back := by simp
  obtain ⟨bound, top⟩ := syncing.within _ mem
  have fits := (source.represents.sub top.sub).fits
  obtain ⟨node', stored, result⟩ := syncing.store source mem db
  obtain rfl := some.inj (honest.symm.trans stored)
  obtain rfl := Except.ok.inj (ran.symm.trans result)
  refine ⟨front ++ back ++ (frontier 4 u).map fun v => (layer + 1, v), ⟨?_, ?_, ?_, ?_, ?_⟩, ?_⟩
  · simp only [List.map_append, List.map_map, words]
    congr 1
    refine List.map_congr_left fun v _ => ?_
    simp [Nat.mul_add, Nat.sub_sub]
  · intro item mem
    rcases List.mem_append.mp mem with old | new
    · exact syncing.within item (by
        rcases List.mem_append.mp old with first | second
        · exact List.mem_append_left _ first
        · exact List.mem_append_right _ (List.mem_cons_of_mem _ second))
    · obtain ⟨v, below, rfl⟩ := List.mem_map.mp new
      obtain ⟨four, next⟩ := top.below fits below
      exact ⟨by simp only at four ⊢; omega, by simpa [Nat.mul_add, Nat.sub_sub] using next⟩
  · intro word kept found
    change Function.update db ((scheme hash).digest (256 - 4 * layer) u) (some node) word =
      some kept at found
    by_cases here : word = (scheme hash).digest (256 - 4 * layer) u
    · subst here
      rw [Function.update_self] at found
      exact ⟨stored.trans found, _, _, top, rfl⟩
    · rw [Function.update_of_ne here] at found
      exact syncing.stored word kept found
  · intro m v lower
    change Function.update db _ (some node) _ ≠ none ∨ _
    by_cases here : (scheme hash).digest m v = (scheme hash).digest (256 - 4 * layer) u
    · exact .inl (by simp [here])
    · rcases syncing.covered m v lower with done | ⟨item, mem, sub⟩
      · exact .inl (by rwa [Function.update_of_ne here])
      · refine .inr ?_
        simp only [List.mem_append, List.mem_cons] at mem
        rcases mem with first | rfl | second
        · exact ⟨item, by simp [first], sub⟩
        · -- below the subtree that was taken, but not that subtree itself
          have apart : m ≠ 256 - 4 * layer ∨ v ≠ u := by
            by_contra same
            simp only [not_or, not_not] at same
            exact here (by rw [same.1, same.2])
          obtain ⟨w, below, sub'⟩ := lower.frontier_of_sub top fits sub apart
          exact ⟨(layer + 1, w), by simp [below], by simpa [Nat.mul_add, Nat.sub_sub] using sub'⟩
        · exact ⟨item, by simp [second], sub⟩
  · refine syncing.leaves.trans ?_
    have entries := (entries_perm 4 u).map LeafNode.of
    simp only [List.flatMap_append, List.flatMap_cons, List.map_append, List.flatMap_map,
      List.append_assoc] at entries ⊢
    refine List.Perm.append_left leaves ?_
    refine (List.Perm.append_left _ (entries.append_right _)).trans ?_
    simp only [← Multiset.coe_eq_coe, ← Multiset.coe_add]
    abel
  · have less : ((frontier 4 u).map fun v => weight v).sum < weight u :=
      sum_frontier_lt 3 top.nonempty
    simp only [List.map_append, List.map_cons, List.sum_append, List.sum_cons, List.map_map,
      Function.comp_def]
    omega

theorem Syncing.acc : Acc (fun q p => SyncStep hash s p q) p := by
  induction total :
    (pending.map fun item => weight item.2).sum using Nat.strong_induction_on generalizing p
    pending with
  | _ total ih =>
    refine ⟨_, fun q step => ?_⟩
    obtain ⟨pending', syncing', less⟩ := syncing.step source step
    exact ih _ (total ▸ less) syncing' rfl

theorem Syncing.run (run : ReflTransGen (SyncStep hash s) p q) :
    ∃ pending', Syncing hash s t q pending' := by
  induction run with
  | refl => exact ⟨pending, syncing⟩
  | tail _ step ih =>
    obtain ⟨pending', syncing'⟩ := ih
    obtain ⟨pending'', syncing'', _⟩ := syncing'.step source step
    exact ⟨pending'', syncing''⟩

theorem Syncing.progress (mem : (root, layer) ∈ p.outstanding) :
    ∃ node synced, s.GetNodeDB root = some node ∧ StoreSnapShotNode hash p.db node root layer =
      .ok synced := by
  rw [syncing.outstanding] at mem
  obtain ⟨⟨layer, u⟩, pendingMember, same⟩ := List.mem_map.mp mem
  obtain ⟨rfl, rfl⟩ := Prod.mk.inj same
  obtain ⟨node, stored, result⟩ := syncing.store source pendingMember p.db
  exact ⟨node, _, stored, result⟩

end

theorem Syncing.stored_eq (syncing : Syncing hash s t p []) (backed : Backed hash hashed s t)
    (injective : Set.InjOn hash hashed) (word : Bytes32) :
    (s.Reaches word → p.db word = s.GetNodeDB word ∧ p.db word ≠ none) ∧
      (¬ s.Reaches word → p.db word = none) := by
  rw [backed.reaches_iff injective]
  refine ⟨?_, fun unreached => ?_⟩
  · rintro ⟨m, u, sub, aligned, nonempty, rfl⟩
    rcases syncing.covered m u ⟨sub, aligned, nonempty⟩ with done | ⟨_, mem, _⟩
    · obtain ⟨node, found⟩ := ne_none_iff_exists'.mp done
      exact ⟨found.trans (syncing.stored _ _ found).1.symm, done⟩
    · cases mem
  · by_contra done
    obtain ⟨node, found⟩ := ne_none_iff_exists'.mp done
    obtain ⟨_, m, u, top, same⟩ := syncing.stored _ _ found
    exact unreached ⟨m, u, top.sub, top.aligned, top.nonempty, same⟩

theorem LeafNode.of_injective : Function.Injective LeafNode.of := by
  rintro ⟨key, value⟩ ⟨key', value'⟩ same
  obtain ⟨keys, values⟩ := LeafNode.mk.inj same
  exact Prod.ext (Bytes32.toBytes_injective keys) (Bytes32.toBytes_injective values)

theorem Syncing.leaves_iff (syncing : Syncing hash s t p []) (holds : Holds hash t map) :
    p.leaves.Nodup ∧ ∀ leaf, leaf ∈ p.leaves ↔ ∃ key value, map key = some value ∧
      leaf = .of (key, value) := by
  have all : (t.entries.map LeafNode.of).Perm p.leaves := by simpa using syncing.leaves
  refine ⟨all.nodup_iff.mp (List.Nodup.map LeafNode.of_injective ?_), fun leaf => ?_⟩
  · exact List.Nodup.of_map Prod.fst holds.canonical.nodup
  · rw [← all.mem_iff, List.mem_map]
    constructor
    · rintro ⟨⟨key, value⟩, mem, rfl⟩
      exact ⟨key, value, (holds.contents key).symm.trans (holds.canonical.lookup_of_mem mem), rfl⟩
    · rintro ⟨key, value, found, rfl⟩
      exact ⟨(key, value), mem_entries_of_lookup ((holds.contents key).trans found), rfl⟩

/-- Fast sync of a committed trie comes to an end in whatever order outstanding roots are taken,
never fails on the way, and leaves exactly the reachable nodes and every pair of the map once. -/
theorem Grown.fastSync (grown : Grown hash s map) (committed : s.db.updatedNodes = fun _ => none)
    (collisionFree : Set.InjOn hash { input | input ∈ s.db.hashed })
    (nonempty : s.root = some root) :
    Acc (fun q p => SyncStep hash s p q) (.start root) ∧
      ∀ p, ReflTransGen (SyncStep hash s) (.start root) p →
        (∀ item ∈ p.outstanding, ∃ node synced, s.GetNodeDB item.1 = some node ∧
          StoreSnapShotNode hash p.db node item.1 item.2 = .ok synced) ∧
        (p.outstanding = [] →
          (∀ word, (s.Reaches word → p.db word = s.GetNodeDB word ∧ p.db word ≠ none) ∧
            (¬ s.Reaches word → p.db word = none)) ∧
          p.leaves.Nodup ∧ ∀ leaf, leaf ∈ p.leaves ↔ ∃ key value, map key = some value ∧
            leaf = .of (key, value)) := by
  obtain ⟨t, backed, holds⟩ := grown.holds collisionFree fun _ mem => mem
  have source : Source hash _ s t :=
    ⟨backed, collisionFree, full_of_canonical holds.canonical, committed⟩
  have filled : t ≠ .empty := by
    rintro rfl
    rw [backed.root] at nonempty
    cases nonempty
  obtain rfl : (scheme hash).digest TrieHeight t = root := by
    rw [backed.root, ref_word filled] at nonempty
    exact some.inj nonempty
  have start : Syncing hash s t (.start ((scheme hash).digest TrieHeight t)) [(0, t)] :=
    .start filled
  refine ⟨start.acc source, fun p run => ?_⟩
  obtain ⟨pending, syncing⟩ := start.run source run
  refine ⟨fun item mem => syncing.progress source mem, fun done => ?_⟩
  obtain rfl : pending = [] := by
    have none := syncing.outstanding
    rw [done] at none
    exact List.map_eq_nil_iff.mp none.symm
  exact ⟨syncing.stored_eq backed collisionFree, syncing.leaves_iff holds⟩

end

theorem Grown.fastSync_sample : ∃ s root map, Grown sampleHash s map ∧ s.root = some root ∧
    Acc (fun q p => SyncStep sampleHash s p q) (.start root) := by
  obtain ⟨s', run, free⟩ := bind_ok_iff.mp sampleRun_free
  obtain ⟨s, first, second⟩ := bind_ok_iff.mp run
  have grown := ((Grown.new.update (by unfold Sorted; decide) firstBatch_separated first).update
    (by unfold Sorted; decide) secondBatch_separated second).commit
  have injective := CollisionFree.injOn (of_decide_eq_true (pure_ok_iff.mp free))
  have rooted : (sampleRun >>= fun s => pure s.root.isSome) = .ok true := by decide +kernel
  rw [run] at rooted
  obtain ⟨root, found⟩ := isSome_iff_exists.mp (pure_ok_iff.mp rooted)
  exact ⟨s'.Commit, root, _, grown, found, (Grown.fastSync grown rfl injective found).1⟩

/-- A sync that takes outstanding roots first come, first served. -/
def syncQueue (hash : Bytes → Bytes32) (s : SMT) : ℕ → SnapShot → Option SnapShot
  | 0, p => some p
  | fuel + 1, p =>
    match p.outstanding with
    | [] => some p
    | (root, layer) :: rest => do
      let synced ← (StoreSnapShotNode hash p.db (← s.GetNodeDB root) root layer).toOption
      syncQueue hash s fuel ⟨rest ++ synced.subBatch.map fun word =>
        (Bytes32.ofBytes word, synced.layer), synced.db, p.leaves ++ synced.leaves⟩

private theorem syncQueue_run {hash : Bytes → Bytes32} (run : syncQueue hash s fuel p = some q) :
    ReflTransGen (SyncStep hash s) p q := by
  induction fuel generalizing p with
  | zero =>
    obtain rfl := some.inj run
    exact .refl
  | succ fuel ih =>
    obtain ⟨outstanding, db, leaves⟩ := p
    cases outstanding with
    | nil =>
      obtain rfl := some.inj run
      exact .refl
    | cons item rest =>
      obtain ⟨root, layer⟩ := item
      simp only [syncQueue, bind_eq_bind, bind_eq_some_iff] at run
      obtain ⟨node, honest, synced, ran, onward⟩ := run
      have stored : StoreSnapShotNode hash db node root layer = .ok synced := by
        cases result : StoreSnapShotNode hash db node root layer with
        | error =>
          rw [result] at ran
          cases ran
        | ok =>
          rw [result] at ran
          exact congrArg Except.ok (some.inj ran)
      have first : SyncStep hash s ⟨[] ++ (root, layer) :: rest, db, leaves⟩ _ :=
        .store honest stored
      exact .head first (ih onward)

def lostSync : Option SnapShot := do
  let s ← losingRun.toOption
  syncQueue sampleHash s.Commit 20 (.start (← s.root))

private theorem lostSync_leaves : (lostSync.map fun p => (p.outstanding, decide p.leaves.Nodup,
    decide (.of (sampleKey 0b11001, 16) ∈ p.leaves))) = some ([], false, true) := by
  decide +kernel

/-- After the three updates that lose a key a complete sync reports a leaf twice, and one that a
lookup does not find. -/
theorem sync_repeats_leaf :
    ∃ s root p, losingRun = .ok s ∧ s.root = some root ∧ CollisionFree sampleHash s ∧
    ReflTransGen (SyncStep sampleHash s.Commit) (.start root) p ∧ p.outstanding = [] ∧
      ¬ p.leaves.Nodup ∧
    .of (sampleKey 0b11001, 16) ∈ p.leaves ∧ s.Commit.Get (sampleKey 0b11001) = .ok none := by
  obtain ⟨s, lost, free⟩ := bind_ok_iff.mp losingRun_free
  have missing : (losingRun >>= fun s => s.Commit.Get (sampleKey 0b11001)) =
    .ok none := by decide +kernel
  rw [lost] at missing
  obtain ⟨p, synced, found⟩ := map_eq_some_iff.mp lostSync_leaves
  simp only [lostSync, lost, Except.toOption, bind_eq_bind, bind_some, bind_eq_some_iff] at synced
  obtain ⟨root, rooted, run⟩ := synced
  simp only [Prod.mk.injEq, decide_eq_false_iff_not, decide_eq_true_eq] at found
  obtain ⟨done, repeated, present⟩ := found
  exact ⟨s, root, p, lost, rooted, of_decide_eq_true (pure_ok_iff.mp free), syncQueue_run run, done,
    repeated, present, missing⟩

end AliceNet.BadgerTrie
