import AliceNet.BadgerTrie.Encoding

/-! Sorted lists of keys. -/

namespace AliceNet.BadgerTrie

open SparseTrie
open List hiding all map

/-- The keys agree on all but their `n` lowest bits. -/
def Agree (n : ℕ) (a b : Bytes32) : Prop :=
  a.toNat / 2 ^ n = b.toNat / 2 ^ n

theorem bitIsSet_eq (bound : n + 1 ≤ TrieHeight) (key : Bytes32) :
    bitIsSet key (TrieHeight - (n + 1)) = decide (key.toNat / 2 ^ n % 2 = 1) := by
  have inside : TrieHeight - (n + 1) < 256 := by
    unfold TrieHeight
    omega
  have position : 256 - 1 - (TrieHeight - (n + 1)) = n := by
    unfold TrieHeight at *
    omega
  simp [bitIsSet, BitVec.getMsbD, inside, position, BitVec.getLsbD,
    Nat.testBit_eq_decide_div_mod_eq]

theorem div_pow_succ (value n : ℕ) : value / 2 ^ (n + 1) = value / 2 ^ n / 2 := by
  rw [pow_succ, Nat.div_div_eq_div_mul]

namespace Agree

theorem symm (agree : Agree n a b) : Agree n b a := Eq.symm agree

theorem succ (agree : Agree n a b) : Agree (n + 1) a b := by
  unfold Agree
  rw [div_pow_succ, div_pow_succ, agree]

theorem all (a b : Bytes32) : Agree TrieHeight a b := by
  unfold Agree TrieHeight
  rw [Nat.div_eq_of_lt a.isLt, Nat.div_eq_of_lt b.isLt]

theorem eq (agree : Agree 0 a b) : a = b := by
  simpa [Agree, BitVec.toNat_inj] using agree

theorem bitIsSet_eq (agree : Agree n a b) (bound : n + 1 ≤ TrieHeight) :
    bitIsSet a (TrieHeight - (n + 1)) = bitIsSet b (TrieHeight - (n + 1)) := by
  rw [BadgerTrie.bitIsSet_eq bound, BadgerTrie.bitIsSet_eq bound, agree]

theorem of_bit (agree : Agree (n + 1) a b) (bound : n + 1 ≤ TrieHeight)
    (bit : bitIsSet a (TrieHeight - (n + 1)) = bitIsSet b (TrieHeight - (n + 1))) :
    Agree n a b := by
  unfold Agree at *
  rw [div_pow_succ, div_pow_succ] at agree
  simp only [BadgerTrie.bitIsSet_eq bound, decide_eq_decide] at bit
  omega

theorem bit_mono (agree : Agree (n + 1) a b) (bound : n + 1 ≤ TrieHeight) (order : a < b)
    (bit : bitIsSet a (TrieHeight - (n + 1)) = true) :
    bitIsSet b (TrieHeight - (n + 1)) = true := by
  unfold Agree at agree
  rw [div_pow_succ, div_pow_succ] at agree
  simp only [BadgerTrie.bitIsSet_eq bound, decide_eq_true_eq] at *
  have monotone : a.toNat / 2 ^ n ≤ b.toNat / 2 ^ n := Nat.div_le_div_right (Nat.le_of_lt order)
  omega

end Agree

def Sorted (kvs : List KV) : Prop :=
  kvs.Pairwise fun a b => a.key < b.key

/-- All keys of the list lie in one subtree of height `n`. -/
def Local (n : ℕ) (kvs : List KV) : Prop :=
  ∀ a ∈ kvs, ∀ b ∈ kvs, Agree n a.key b.key

theorem Sorted.value_unique (sorted : Sorted kvs) (first : a ∈ kvs) (second : b ∈ kvs)
    (same : a.key = b.key) : a = b := by
  induction kvs with
  | nil => simp at first
  | cons kv rest ih =>
    obtain ⟨smaller, restSorted⟩ := pairwise_cons.mp sorted
    rcases mem_cons.mp first with firstHead | firstRest
    · rcases mem_cons.mp second with secondHead | secondRest
      · rw [firstHead, secondHead]
      · have order := smaller b secondRest
        rw [← firstHead, same] at order
        exact absurd order (BitVec.lt_irrefl _)
    · rcases mem_cons.mp second with secondHead | secondRest
      · have order := smaller a firstRest
        rw [← secondHead, same] at order
        exact absurd order (BitVec.lt_irrefl _)
      · exact ih restSorted firstRest secondRest

section

variable (hash : Bytes → Bytes32)

def applyKVs (kvs : List KV) (map : Bytes32 → Option Bytes32) (key : Bytes32) : Option Bytes32 :=
  match kvs.find? fun kv => kv.key = key with
  | some kv => if kv.value = DefaultLeaf hash then none else some kv.value
  | none => map key

variable {hash}

theorem applyKVs_of_mem (sorted : Sorted kvs) (mem : kv ∈ kvs) (map : Bytes32 → Option Bytes32) :
    applyKVs hash kvs map kv.key = if kv.value = DefaultLeaf hash then none else some kv.value := by
  unfold applyKVs
  cases found : kvs.find? fun other => other.key = kv.key with
  | none =>
    have absent := find?_eq_none.mp found kv mem
    simp at absent
  | some other =>
    have same : other.key = kv.key := by simpa using find?_some found
    rw [sorted.value_unique (mem_of_find?_eq_some found) mem same]

theorem applyKVs_of_not_mem (absent : ∀ kv ∈ kvs, kv.key ≠ key) (map : Bytes32 → Option Bytes32) :
    applyKVs hash kvs map key = map key := by
  unfold applyKVs
  rw [find?_eq_none.mpr fun kv mem => by simpa using absent kv mem]

theorem applyKVs_ne_default (genuine : ∀ key, map key ≠ some (DefaultLeaf hash)) (kvs : List KV)
    (key : Bytes32) : applyKVs hash kvs map key ≠ some (DefaultLeaf hash) := by
  unfold applyKVs
  split
  · split
    · simp
    · rename_i different
      simpa using different
  · exact genuine key

end

theorem splitKeys_spec (sorted : Sorted kvs) (within : Local (n + 1) kvs)
    (bound : n + 1 ≤ TrieHeight) (split : splitKeys kvs (TrieHeight - (n + 1)) = (lkvs, rkvs)) :
    kvs = lkvs ++ rkvs ∧ (∀ kv ∈ lkvs, bitIsSet kv.key (TrieHeight - (n + 1)) = false) ∧
      ∀ kv ∈ rkvs, bitIsSet kv.key (TrieHeight - (n + 1)) = true := by
  simp only [splitKeys, span_eq_takeWhile_dropWhile, Prod.mk.injEq] at split
  obtain ⟨rfl, rfl⟩ := split
  refine ⟨(takeWhile_append_dropWhile ..).symm, fun kv mem => ?_, fun kv mem => ?_⟩
  · simpa using mem_takeWhile_imp mem
  · have sublist := dropWhile_sublist (fun kv => !bitIsSet kv.key (TrieHeight - (n + 1))) (l := kvs)
    generalize rest : kvs.dropWhile (fun kv => !bitIsSet kv.key (TrieHeight - (n + 1))) = rkvs at *
    cases rkvs with
    | nil => simp at mem
    | cons head tail =>
      -- the first key that is not taken has the bit set, and every later key is larger
      have headBit : bitIsSet head.key (TrieHeight - (n + 1)) = true := by
        have first := head_dropWhile_not (fun kv : KV => !bitIsSet kv.key (TrieHeight - (n + 1)))
          (l := kvs) (by simp [rest])
        simpa [rest] using first
      rcases mem_cons.mp mem with rfl | later
      · exact headBit
      · have order := (pairwise_cons.mp (sorted.sublist sublist)).1 kv later
        exact (within head (sublist.subset (by simp)) kv (sublist.subset mem)).bit_mono bound order
          headBit

section

variable {hash : Bytes → Bytes32}

theorem Sorted.split_at (sorted : Sorted kvs) (key : Bytes32) :
    ∃ smaller rest, kvs = smaller ++ rest ∧ (∀ kv ∈ smaller, kv.key < key) ∧ ∀ kv ∈ rest,
      ¬ kv.key < key := by
  induction kvs with
  | nil => exact ⟨[], [], rfl, by simp, by simp⟩
  | cons kv kvs ih =>
    obtain ⟨larger, restSorted⟩ := pairwise_cons.mp sorted
    by_cases below : kv.key < key
    · obtain ⟨smaller, rest, rfl, before, after⟩ := ih restSorted
      exact ⟨kv :: smaller, rest, rfl, by simpa [below] using before, after⟩
    · refine ⟨[], kv :: kvs, rfl, by simp, fun other mem => ?_⟩
      rcases mem_cons.mp mem with rfl | later
      · exact below
      · exact fun order => below (BitVec.lt_trans (larger other later) order)

private theorem addShortcutLoop_smaller (before : ∀ kv ∈ smaller, kv.key < shortcut.key) :
    addShortcutLoop hash kvs shortcut i (smaller ++ rest) [] higher =
      addShortcutLoop hash kvs shortcut (i + smaller.length) rest []
        (higher || !smaller.isEmpty) := by
  induction smaller generalizing i higher with
  | nil => simp
  | cons kv smaller ih =>
    have below : kv.key < shortcut.key := before kv (by simp)
    have different : shortcut.key ≠ kv.key := fun same => BitVec.lt_irrefl _ (same ▸ below)
    have notAbove : ¬ shortcut.key < kv.key := fun above =>
      BitVec.lt_irrefl _ (BitVec.lt_trans above below)
    have step : addShortcutLoop hash kvs shortcut (i + 1) (smaller ++ rest) [] true = _ :=
      ih fun other mem => before other (by simp [mem])
    cases higher with
    | false => simpa [addShortcutLoop, different, below, Nat.add_right_comm,
        Nat.add_assoc] using step
    | true => simpa [addShortcutLoop, different, notAbove, Nat.add_right_comm,
        Nat.add_assoc] using step

private theorem addShortcutLoop_larger (after : ∀ kv ∈ rest, shortcut.key < kv.key) :
    addShortcutLoop hash kvs shortcut i rest newKVs false = newKVs := by
  induction rest generalizing i with
  | nil => rfl
  | cons kv rest ih =>
    have above : shortcut.key < kv.key := after kv (by simp)
    have different : shortcut.key ≠ kv.key := fun same => BitVec.lt_irrefl _ (same ▸ above)
    have notBelow : ¬ kv.key < shortcut.key := fun below =>
      BitVec.lt_irrefl _ (BitVec.lt_trans above below)
    simpa [addShortcutLoop, different, notBelow] using ih fun other mem =>
      after other (by simp [mem])

def OneSided (hash : Bytes → Bytes32) (key : Bytes32) (kvs : List KV) : Prop :=
  (∃ kv ∈ kvs, kv.key = key ∧ kv.value = DefaultLeaf hash) →
    (∀ kv ∈ kvs, ¬ kv.key < key) ∨ ∀ kv ∈ kvs, ¬ key < kv.key

structure Merged (hash : Bytes → Bytes32) (kvs : List KV) (shortcut : KV) (merged : List KV) :
  Prop where
  sorted : Sorted merged
  mem_iff : kv ∈ merged ↔ (kv ∈ kvs ∧ ¬ (kv.key = shortcut.key ∧ kv.value = DefaultLeaf hash)) ∨
    (kv = shortcut ∧ ∀ other ∈ kvs, other.key ≠ shortcut.key)

theorem Merged.insert (sorted : Sorted (smaller ++ rest))
    (before : ∀ kv ∈ smaller, kv.key < shortcut.key) (after : ∀ kv ∈ rest, shortcut.key < kv.key) :
    Merged hash (smaller ++ rest) shortcut (smaller ++ shortcut :: rest) := by
  obtain ⟨smallerSorted, restSorted, cross⟩ := pairwise_append.mp sorted
  have different : ∀ kv ∈ smaller ++ rest, kv.key ≠ shortcut.key := by
    intro kv mem same
    rcases mem_append.mp mem with mem | mem
    · exact BitVec.lt_irrefl _ (same ▸ before kv mem)
    · exact BitVec.lt_irrefl _ (same ▸ after kv mem)
  refine ⟨?_, ?_⟩
  · refine pairwise_append.mpr ⟨smallerSorted, pairwise_cons.mpr ⟨after, restSorted⟩,
      fun a small b large => ?_⟩
    rcases mem_cons.mp large with rfl | large
    · exact before a small
    · exact cross a small b large
  · intro kv
    constructor
    · intro mem
      rcases mem_append.mp mem with mem | mem
      · exact .inl ⟨by simp [mem], fun same => different kv (by simp [mem]) same.1⟩
      · rcases mem_cons.mp mem with rfl | mem
        · exact .inr ⟨rfl, different⟩
        · exact .inl ⟨by simp [mem], fun same => different kv (by simp [mem]) same.1⟩
    · rintro (⟨mem, _⟩ | ⟨rfl, _⟩)
      · rcases mem_append.mp mem with mem | mem <;> simp [mem]
      · simp

theorem Merged.overwrite (sorted : Sorted kvs) (mem : kv ∈ kvs) (same : kv.key = shortcut.key)
    (kept : kv.value ≠ DefaultLeaf hash) : Merged hash kvs shortcut kvs := by
  refine ⟨sorted, ?_⟩
  intro other
  constructor
  · intro present
    refine .inl ⟨present, fun deleted => kept ?_⟩
    rw [sorted.value_unique mem present (same.trans deleted.1.symm)]
    exact deleted.2
  · rintro (⟨present, _⟩ | ⟨_, absent⟩)
    · exact present
    · exact absurd same (absent kv mem)

theorem Merged.erase (sorted : Sorted (smaller ++ kv :: rest)) (same : kv.key = shortcut.key)
    (deleted : kv.value = DefaultLeaf hash) :
    Merged hash (smaller ++ kv :: rest) shortcut (smaller ++ rest) := by
  have removed : (smaller ++ rest).Sublist (smaller ++ kv :: rest) :=
    Sublist.append (Sublist.refl smaller) (sublist_cons_self kv rest)
  refine ⟨sorted.sublist removed, ?_⟩
  intro other
  obtain ⟨_, restSorted, cross⟩ := pairwise_append.mp sorted
  obtain ⟨larger, _⟩ := pairwise_cons.mp restSorted
  constructor
  · intro mem
    refine .inl ⟨removed.subset mem, fun gone => ?_⟩
    have sameKey : other.key = kv.key := gone.1.trans same.symm
    rcases mem_append.mp mem with small | large
    · exact BitVec.lt_irrefl _ (sameKey ▸ cross other small kv (by simp))
    · exact BitVec.lt_irrefl _ (sameKey ▸ larger other large)
  · rintro (⟨mem, stays⟩ | ⟨_, absent⟩)
    · rcases mem_append.mp mem with small | large
      · simp [small]
      · rcases mem_cons.mp large with rfl | large
        · exact absurd ⟨same, deleted⟩ stays
        · simp [large]
    · exact absurd same (absent kv (by simp))

private theorem addShortcutLoop_merged (sorted : Sorted (smaller ++ kv :: rest))
    (before : ∀ other ∈ smaller, other.key < shortcut.key) (after : ¬ kv.key < shortcut.key)
    (first : smaller = [] → ¬ shortcut.key < kv.key)
    (safe : OneSided hash shortcut.key (smaller ++ kv :: rest)) :
    Merged hash (smaller ++ kv :: rest) shortcut
      (addShortcutLoop hash (smaller ++ kv :: rest) shortcut 0 (smaller ++ kv :: rest)
        [] false) := by
  obtain ⟨_, restSorted, _⟩ := pairwise_append.mp sorted
  obtain ⟨larger, _⟩ := pairwise_cons.mp restSorted
  rw [addShortcutLoop_smaller before]
  by_cases same : kv.key = shortcut.key
  · by_cases deleted : kv.value = DefaultLeaf hash
    · have collected : addShortcutLoop hash (smaller ++ kv :: rest) shortcut (0 + smaller.length)
        (kv :: rest) []
          (false || !smaller.isEmpty) =
          addShortcutLoop hash (smaller ++ kv :: rest) shortcut (smaller.length + 1) rest
            (smaller ++ rest) (!smaller.isEmpty) := by
        simp [addShortcutLoop, same, deleted, BitVec.lt_irrefl, drop_append, drop_eq_nil_of_le]
      rw [collected]
      have erased := Merged.erase sorted same deleted
      rcases safe ⟨kv, by simp, same, deleted⟩ with noneBelow | noneAbove
      · have none : smaller = [] := by
          refine eq_nil_iff_forall_not_mem.mpr fun other mem => ?_
          exact noneBelow other (by simp [mem]) (before other mem)
        subst none
        rw [isEmpty_nil, Bool.not_true, addShortcutLoop_larger fun other mem =>
          same ▸ larger other mem]
        exact erased
      · have none : rest = [] := by
          refine eq_nil_iff_forall_not_mem.mpr fun other mem => ?_
          exact noneAbove other (by simp [mem]) (same ▸ larger other mem)
        subst none
        exact erased
    · have stopped : addShortcutLoop hash (smaller ++ kv :: rest) shortcut (0 + smaller.length)
        (kv :: rest) []
          (false || !smaller.isEmpty) = smaller ++ kv :: rest := by
        simp [addShortcutLoop, same, Ne.symm deleted]
      rw [stopped]
      exact Merged.overwrite sorted (by simp) same deleted
  · have above : shortcut.key < kv.key := by bv_omega
    have seen : smaller ≠ [] := fun none => first none above
    have inserted : addShortcutLoop hash (smaller ++ kv :: rest) shortcut (0 + smaller.length)
        (kv :: rest) [] (false || !smaller.isEmpty) = smaller ++ shortcut :: kv :: rest := by
      simp [addShortcutLoop, Ne.symm same, seen, above]
    rw [inserted]
    refine Merged.insert sorted before fun other mem => ?_
    rcases mem_cons.mp mem with rfl | later
    · exact above
    · exact BitVec.lt_trans above (larger other later)

theorem maybeAddShortcutToKV_merged (sorted : Sorted kvs) (nonempty : kvs ≠ [])
    (safe : OneSided hash shortcut.key kvs) :
    Merged hash kvs shortcut (maybeAddShortcutToKV hash kvs shortcut) := by
  obtain ⟨first, tail, rfl⟩ := exists_cons_of_ne_nil nonempty
  obtain ⟨firstSmallest, _⟩ := pairwise_cons.mp sorted
  unfold maybeAddShortcutToKV
  simp only [head?_cons, getLast?_eq_some_getLast nonempty]
  split
  · rename_i below
    have above : ∀ kv ∈ first :: tail, shortcut.key < kv.key := by
      intro kv mem
      rcases mem_cons.mp mem with rfl | later
      · exact below
      · exact BitVec.lt_trans below (firstSmallest kv later)
    have inserted : Merged hash ([] ++ first :: tail) shortcut ([] ++ shortcut :: first :: tail) :=
      Merged.insert sorted (by simp) above
    exact inserted
  · rename_i notBelow
    obtain ⟨smaller, rest, parts, before, after⟩ := sorted.split_at shortcut.key
    generalize same : first :: tail = kvs at *
    cases rest with
    | nil =>
      obtain rfl : kvs = smaller := by simpa using parts
      rw [if_pos (before _ (getLast_mem nonempty))]
      have inserted : Merged hash (kvs ++ []) shortcut (kvs ++ [shortcut]) :=
        Merged.insert (by simpa using sorted) before (by simp)
      simpa using inserted
    | cons kv rest =>
      subst parts
      have last : (smaller ++ kv :: rest).getLast nonempty ∈ kv :: rest := by
        rw [getLast_append_of_ne_nil _ (cons_ne_nil kv rest)]
        exact getLast_mem _
      rw [if_neg (after _ last)]
      refine addShortcutLoop_merged sorted before (after kv (by simp)) (fun none => ?_) safe
      subst none
      obtain ⟨rfl, _⟩ := cons.inj same
      exact notBelow

theorem Merged.applyKVs_eq (merged : Merged hash kvs shortcut kvs') (sorted : Sorted kvs)
    (genuine : shortcut.value ≠ DefaultLeaf hash) (key : Bytes32) :
    applyKVs hash kvs' (fun _ => none) key =
      applyKVs hash kvs (fun other => if shortcut.key = other then some shortcut.value else
        none) key := by
  by_cases present : ∃ kv ∈ kvs, kv.key = key
  · obtain ⟨kv, mem, rfl⟩ := present
    rw [applyKVs_of_mem sorted mem]
    by_cases deleted : kv.key = shortcut.key ∧ kv.value = DefaultLeaf hash
    · rw [if_pos deleted.2]
      refine applyKVs_of_not_mem (fun other present same => ?_) _
      rcases merged.mem_iff.mp present with ⟨old, stays⟩ | ⟨_, absent⟩
      · exact stays (sorted.value_unique mem old same.symm ▸ deleted)
      · exact absent kv mem deleted.1
    · rw [applyKVs_of_mem merged.sorted (merged.mem_iff.mpr (.inl ⟨mem, deleted⟩))]
  · have absent : ∀ kv ∈ kvs, kv.key ≠ key := fun kv mem same => present ⟨kv, mem, same⟩
    rw [applyKVs_of_not_mem absent]
    by_cases same : shortcut.key = key
    · subst same
      rw [applyKVs_of_mem merged.sorted (merged.mem_iff.mpr (.inr ⟨rfl, absent⟩)), if_neg genuine,
        if_pos rfl]
    · rw [if_neg same]
      refine applyKVs_of_not_mem (fun other mem equal => ?_) _
      rcases merged.mem_iff.mp mem with ⟨old, _⟩ | ⟨rfl, _⟩
      · exact absent other old equal
      · exact same equal

theorem Merged.local (merged : Merged hash kvs shortcut kvs') (within : Local n kvs)
    (near : ∀ kv ∈ kvs, Agree n shortcut.key kv.key) : Local n kvs' := by
  intro a first b second
  rcases merged.mem_iff.mp first with ⟨first, _⟩ | ⟨rfl, _⟩
  · rcases merged.mem_iff.mp second with ⟨second, _⟩ | ⟨rfl, _⟩
    · exact within a first b second
    · exact (near a first).symm
  · rcases merged.mem_iff.mp second with ⟨second, _⟩ | ⟨rfl, _⟩
    · exact near b second
    · rfl

variable (hash)

def Safe : (depth : ℕ) → Tree → List KV → Prop
  | _, .empty, _ => True
  | _, .leaf key _, kvs => OneSided hash key kvs
  | depth, .node left right, kvs =>
    Safe (depth + 1) left (kvs.filter fun kv => !bitIsSet kv.key depth) ∧
      Safe (depth + 1) right (kvs.filter fun kv => bitIsSet kv.key depth)

def Separated (map : Bytes32 → Option Bytes32) (kvs : List KV) : Prop :=
  ∀ s ∈ kvs, s.value = DefaultLeaf hash → ∀ a ∈ kvs, a.key < s.key → ∀ b ∈ kvs, s.key < b.key →
    ∀ n ≤ TrieHeight, Agree n a.key s.key → Agree n b.key s.key →
      ∃ key ≠ s.key, map key ≠ none ∧ Agree n key s.key

variable {hash}

theorem OneSided.mono (safe : OneSided hash key kvs) (part : kvs' ⊆ kvs) :
    OneSided hash key kvs' := by
  rintro ⟨kv, mem, deleted⟩
  rcases safe ⟨kv, part mem, deleted⟩ with noneBelow | noneAbove
  · exact .inl fun other mem => noneBelow other (part mem)
  · exact .inr fun other mem => noneAbove other (part mem)

theorem Safe.mono (safe : Safe hash depth t kvs) (part : kvs' ⊆ kvs) : Safe hash depth t kvs' := by
  induction t generalizing depth kvs kvs' with
  | empty => trivial
  | leaf key value => exact OneSided.mono safe part
  | node left right ihLeft ihRight =>
    exact ⟨ihLeft safe.1 (filter_subset _ part), ihRight safe.2 (filter_subset _ part)⟩

theorem safe_of_separated (separated : Separated hash map all) (bound : n ≤ TrieHeight)
    (part : kvs ⊆ all) (canonical : Canonical bitIsSet n (TrieHeight - n) t) (within : Local n kvs)
    (complete : ∀ key, map key ≠ none → ∀ kv ∈ kvs, Agree n key kv.key → key ∈ t.keys) :
    Safe hash (TrieHeight - n) t kvs := by
  induction t generalizing n kvs with
  | empty => trivial
  | leaf key value =>
    rintro ⟨kv, mem, rfl, deleted⟩
    by_contra bothSides
    simp only [not_or, not_forall, not_not] at bothSides
    obtain ⟨⟨a, aMember, below⟩, b, bMember, above⟩ := bothSides
    obtain ⟨other, different, present, near⟩ :=
      separated kv (part mem) deleted a (part aMember) below b (part bMember) above n bound
      (within a aMember kv mem) (within b bMember kv mem)
    exact different (by simpa using complete other present kv mem near)
  | node left right ihLeft ihRight =>
    cases canonical with
    | @node height _ _ _ canonicalLeft canonicalRight zeros ones shared =>
      have depth : TrieHeight - (height + 1) + 1 = TrieHeight - height := by omega
      rw [depth] at canonicalLeft canonicalRight
      have descend : ∀ key, map key ≠ none → ∀ kv ∈ kvs, Agree height key kv.key →
          key ∈ left.keys ∨ key ∈ right.keys := by
        intro key present kv mem near
        simpa using complete key present kv mem near.succ
      simp only [Safe, depth]
      refine ⟨ihLeft (by omega) (fun kv mem => part (mem_filter.mp mem).1) canonicalLeft ?_ ?_,
        ihRight (by omega) (fun kv mem => part (mem_filter.mp mem).1) canonicalRight ?_ ?_⟩
      · intro a first b second
        simp only [mem_filter, Bool.not_eq_true'] at first second
        exact (within a first.1 b second.1).of_bit bound (first.2.trans second.2.symm)
      · intro key present kv mem near
        simp only [mem_filter, Bool.not_eq_true'] at mem
        rcases descend key present kv mem.1 near with inLeft | inRight
        · exact inLeft
        · have bit := near.bitIsSet_eq bound
          simp [ones key inRight, mem.2] at bit
      · intro a first b second
        simp only [mem_filter] at first second
        exact (within a first.1 b second.1).of_bit bound (first.2.trans second.2.symm)
      · intro key present kv mem near
        simp only [mem_filter] at mem
        rcases descend key present kv mem.1 near with inLeft | inRight
        · have bit := near.bitIsSet_eq bound
          simp [zeros key inLeft, mem.2] at bit
        · exact inRight

end

end AliceNet.BadgerTrie
