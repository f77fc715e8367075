import AliceNet.Application.PendingIndex

/-!
What the pool's indexes say after every operation.
-/

namespace AliceNet.Application

open Outcome Function
open Consensus (Fault)
open SortedTable (entries_foldl_erase erase mem_erase mem_insert)
open List

namespace RefCounter

theorem Decrement_getD (counts : Bytes32 → Option ℕ) (utxoID other : Bytes32) :
    (Decrement counts utxoID other).getD 0 = (counts other).getD 0 - if other = utxoID then 1 else
      0 := by
  unfold Decrement
  by_cases same : other = utxoID
  · subst same
    cases found : counts other with
    | none => simp [found]
    | some v =>
      by_cases more : 0 < v - 1
      · simp [more]
      · simp only [more, if_false, if_true, update_self, Option.getD_none, Option.getD_some]
        omega
  · cases counts utxoID with
    | none => simp [same]
    | some v => by_cases more : 0 < v - 1 <;> simp [more, same]

theorem Increment_fst (counts : Bytes32 → Option ℕ) (utxoID : Bytes32) :
    (Increment counts utxoID).1 = (counts utxoID).getD 0 + 1 := by
  unfold Increment
  cases counts utxoID <;> rfl

theorem Increment_getD (counts : Bytes32 → Option ℕ) (utxoID other : Bytes32) :
    ((Increment counts utxoID).2 other).getD 0 = (counts other).getD 0 + if other = utxoID then
      1 else 0 := by
  unfold Increment
  by_cases same : other = utxoID
  · subst same
    cases counts other <;> simp
  · cases counts utxoID <;> simp [same]

end RefCounter

namespace RefLinker

/-- Both tables have the same links. -/
def Inverse (rl : RefLinker) : Prop := ∀ link, link ∈ rl.ref.entries ↔ link ∈ rl.revRef.entries

def countOf (rl : RefLinker) (utxoID : Bytes32) : ℕ := (rl.counts utxoID).getD 0

def linked (rl : RefLinker) (utxoID : Bytes32) : ℕ := rl.ref.entries.countP fun link =>
    link.utxoID = utxoID

/-- The counters are the numbers of links, and the two tables are inverse. -/
structure Exact (rl : RefLinker) : Prop where
  counts : ∀ utxoID, rl.countOf utxoID = rl.linked utxoID
  bounded : ∀ utxoID, rl.countOf utxoID ≤ threshold
  inverse : rl.Inverse

section

variable (links : List Link) (rl : RefLinker)

private theorem ref_foldl_cut : (links.foldl cut rl).ref = links.foldl erase rl.ref :=
  (foldl_hom RefLinker.ref fun _ _ => rfl).symm

private theorem revRef_foldl_cut : (links.foldl cut rl).revRef = links.foldl erase rl.revRef :=
  (foldl_hom RefLinker.revRef fun _ _ => rfl).symm

private theorem countOf_foldl_cut (utxoID : Bytes32) :
    (links.foldl cut rl).countOf utxoID = rl.countOf utxoID := by
  induction links generalizing rl with
  | nil => rfl
  | cons link links ih => exact ih (rl.cut link)

private theorem ref_foldl_unlink : (links.foldl unlink rl).ref = links.foldl erase rl.ref :=
  (foldl_hom RefLinker.ref fun _ _ => rfl).symm

private theorem revRef_foldl_unlink :
    (links.foldl unlink rl).revRef = links.foldl erase rl.revRef :=
  (foldl_hom RefLinker.revRef fun _ _ => rfl).symm

theorem countOf_foldl_unlink (utxoID : Bytes32) :
    (links.foldl unlink rl).countOf utxoID = rl.countOf utxoID - links.countP fun link =>
      link.utxoID = utxoID := by
  induction links generalizing rl with
  | nil => rfl
  | cons link links ih =>
    have step : (rl.unlink link).countOf utxoID = rl.countOf utxoID - if utxoID = link.utxoID then
        1 else 0 :=
      RefCounter.Decrement_getD ..
    rw [foldl_cons, ih, step, countP_cons]
    by_cases same : link.utxoID = utxoID
    · simp only [same, if_true, decide_true]
      omega
    · simp [same, Ne.symm same]

end

variable {rl : RefLinker}

theorem entries_Delete (rl : RefLinker) (txHash : Bytes32) :
    (rl.Delete txHash).ref.entries = rl.ref.entries.filter fun link => link.txHash ≠ txHash := by
  rw [Delete, ref_foldl_unlink, entries_foldl_erase Link.refKey_injective]
  refine filter_congr fun link listed => ?_
  simp [mem_filter, listed]

theorem mem_Delete :
    link ∈ (rl.Delete txHash).ref.entries ↔ link ∈ rl.ref.entries ∧ link.txHash ≠ txHash := by
  rw [entries_Delete, mem_filter, decide_eq_true_iff]

theorem Inverse.Delete (inverse : rl.Inverse) (txHash : Bytes32) : (rl.Delete txHash).Inverse := by
  intro link
  rw [mem_Delete, RefLinker.Delete, revRef_foldl_unlink,
    entries_foldl_erase Link.revRefKey_injective, mem_filter, decide_eq_true_iff, mem_filter,
    decide_eq_true_iff, ← inverse link]
  tauto

theorem countP_link (rl : RefLinker) (txHash utxoID : Bytes32) :
    ((rl.ref.entries.filter fun link => link.txHash = txHash).countP fun link =>
      link.utxoID = utxoID) =
      if (⟨txHash, utxoID⟩ : Link) ∈ rl.ref.entries then 1 else 0 := by
  rw [← Nodup.count rl.ref.nodup, count, countP_filter]
  refine countP_congr fun link _ => ?_
  obtain ⟨other, output⟩ := link
  simp [and_comm]

theorem countOf_Delete_eq (rl : RefLinker) (txHash utxoID : Bytes32) :
    (rl.Delete txHash).countOf utxoID =
      rl.countOf utxoID - if (⟨txHash, utxoID⟩ : Link) ∈ rl.ref.entries then 1 else 0 := by
  rw [Delete, countOf_foldl_unlink, countP_link]

theorem countOf_Delete (above : rl.countOf utxoID = rl.linked utxoID + extra) (txHash : Bytes32) :
    (rl.Delete txHash).countOf utxoID = (rl.Delete txHash).linked utxoID + extra := by
  have parts := countP_eq_countP_filter_add rl.ref.entries (fun link => link.utxoID = utxoID)
    (fun link => link.txHash = txHash)
  have rest : (rl.Delete txHash).linked utxoID = (rl.ref.entries.filter fun link =>
      !decide (link.txHash = txHash)).countP fun link => link.utxoID = utxoID := by
    rw [linked, entries_Delete]
    simp only [ne_eq, decide_not]
  rw [RefLinker.Delete, countOf_foldl_unlink, ← RefLinker.Delete, above, rest]
  unfold linked
  omega

structure Linking (before : RefLinker) (txHash : Bytes32) (done evictions : List Bytes32)
  (rl : RefLinker) : Prop where
  exact : rl.Exact
  links : ∀ link, link ∈ rl.ref.entries ↔
    (link ∈ before.ref.entries ∧ link.txHash ∉ evictions) ∨
      (link.txHash = txHash ∧ link.utxoID ∈ done)
  evicted : ∀ other ∈ evictions, ∃ link ∈ before.ref.entries, link.txHash = other

theorem Exact.insert {counted : RefLinker} (inverse : counted.Inverse)
    (absent : link ∉ counted.ref.entries)
    (ahead : ∀ utxoID, counted.countOf utxoID = counted.linked utxoID + if utxoID = link.utxoID then
      1 else 0)
    (bounded : ∀ utxoID, counted.countOf utxoID ≤ threshold) :
    Exact { counted with
      ref := counted.ref.insert link
      revRef := counted.revRef.insert link } where
  counts := by
    intro utxoID
    have perm := counted.ref.insert_perm Link.refKey_injective absent
    have count : linked { counted with
          ref := counted.ref.insert link
          revRef := counted.revRef.insert link } utxoID =
        counted.linked utxoID + if utxoID = link.utxoID then 1 else 0 := by
      rw [linked, perm.countP_eq, countP_cons, linked]
      by_cases same : link.utxoID = utxoID
      · simp [same]
      · simp [same, Ne.symm same]
    rw [count, ← ahead]
    rfl
  bounded := bounded
  inverse := by
    intro other
    rw [mem_insert Link.refKey_injective, mem_insert Link.revRefKey_injective, inverse other]

private theorem exists_link (counted : 0 < rl.linked utxoID) :
    ∃ link ∈ rl.ref.entries, link.utxoID = utxoID := by
  obtain ⟨link, listed, output⟩ := countP_pos_iff.mp counted
  exact ⟨link, listed, by simpa using output⟩

private theorem evictOne_ok (inverse : rl.Inverse) (some : 0 < rl.linked utxoID) :
    ∃ link ∈ rl.ref.entries, link.utxoID = utxoID ∧ rl.evictOne utxoID =
      .ok (link.txHash, rl.Delete link.txHash) := by
  unfold evictOne
  cases found : rl.revRef.entries.find? fun link => link.utxoID = utxoID with
  | none =>
    obtain ⟨link, listed, output⟩ := exists_link some
    have none := find?_eq_none.mp found link ((inverse link).mp listed)
    simp [output] at none
  | some link =>
    have output := find?_some found
    exact ⟨link, (inverse link).mpr (mem_of_find?_eq_some found), by simpa using output, rfl⟩

variable {rl : RefLinker}

theorem Linking.addOne {before : RefLinker} (linking : Linking before txHash done evictions rl)
    (unlinked : ∀ link ∈ before.ref.entries, link.txHash ≠ txHash) (fresh : utxoID ∉ done) :
    ∃ evictions' rl', RefLinker.addOne txHash (evictions, rl) utxoID = .ok (evictions', rl') ∧
      Linking before txHash (done ++ [utxoID]) evictions' rl' := by
  have absent : (⟨txHash, utxoID⟩ : Link) ∉ rl.ref.entries := by
    rw [linking.links]
    rintro (⟨listed, _⟩ | ⟨_, known⟩)
    · exact unlinked _ listed rfl
    · exact fresh known
  let counted : RefLinker := { rl with counts := (RefCounter.Increment rl.counts utxoID).2 }
  have ahead : ∀ other, counted.countOf other = counted.linked other + if other = utxoID then 1 else
      0 := by
    intro other
    have step : counted.countOf other = rl.countOf other + if other = utxoID then 1 else 0 :=
      RefCounter.Increment_getD ..
    rw [step, linking.exact.counts]
    rfl
  have inverse : counted.Inverse := linking.exact.inverse
  by_cases full : threshold < (RefCounter.Increment rl.counts utxoID).1
  · -- The output has as many links as it may have: another transaction's goes, the first.
    have most := linking.exact.bounded utxoID
    have count : rl.countOf utxoID = threshold := by
      rw [RefCounter.Increment_fst] at full
      unfold countOf at *
      omega
    have some : 0 < counted.linked utxoID := by
      have : counted.linked utxoID = threshold := (linking.exact.counts utxoID).symm.trans count
      rw [this]
      decide
    obtain ⟨link, listed, output, evicts⟩ := evictOne_ok inverse some
    obtain ⟨old, kept⟩ : link ∈ before.ref.entries ∧ link.txHash ∉ evictions :=
      ((linking.links link).mp listed).resolve_right fun ⟨_, known⟩ => fresh (output ▸ known)
    have other : link.txHash ≠ txHash := unlinked link old
    refine ⟨evictions ++ [link.txHash], _, ?_, Exact.insert (inverse.Delete link.txHash)
        (fun present =>
      absent (mem_Delete.mp present).1) (fun utxo => countOf_Delete (ahead utxo) _) ?_, fun item =>
        ?_, ?_⟩
    · unfold RefLinker.addOne
      simp only [if_pos full]
      rw [evicts]
      rfl
    · intro utxo
      rw [countOf_Delete_eq, ahead, show counted.linked utxo =
        rl.countOf utxo from (linking.exact.counts utxo).symm]
      have less := linking.exact.bounded utxo
      by_cases same : utxo = utxoID
      · subst same
        rw [if_pos rfl,
          if_pos (show (⟨link.txHash, utxo⟩ : Link) ∈ counted.ref.entries from output ▸ listed)]
        exact less
      · rw [if_neg same]
        omega
    · rw [mem_insert Link.refKey_injective, mem_Delete, show item ∈ counted.ref.entries ↔
        _ from linking.links item,
        mem_append, mem_singleton, mem_append, mem_singleton]
      obtain ⟨hash, output⟩ := item
      simp only [Link.mk.injEq]
      constructor
      · rintro (⟨rfl, rfl⟩ | ⟨⟨listed, stays⟩ | ⟨rfl, known⟩, different⟩)
        · exact .inr ⟨rfl, .inr rfl⟩
        · exact .inl ⟨listed, fun gone => gone.elim stays different⟩
        · exact .inr ⟨rfl, .inl known⟩
      · rintro (⟨listed, stays⟩ | ⟨rfl, known | rfl⟩)
        · exact .inr ⟨.inl ⟨listed, fun gone => stays (.inl gone)⟩, fun same => stays (.inr same)⟩
        · exact .inr ⟨.inr ⟨rfl, known⟩, other.symm⟩
        · exact .inl ⟨rfl, rfl⟩
    · intro gone mem
      rcases mem_append.mp mem with earlier | now
      · exact linking.evicted gone earlier
      · exact ⟨link, old, (mem_singleton.mp now).symm⟩
  · refine ⟨evictions, _, ?_, Exact.insert inverse absent ahead ?_, fun item => ?_, linking.evicted⟩
    · unfold RefLinker.addOne
      simp only [if_neg full]
      rfl
    · intro utxo
      have less := linking.exact.bounded utxo
      rw [RefCounter.Increment_fst] at full
      rw [ahead, show counted.linked utxo = rl.countOf utxo from (linking.exact.counts utxo).symm]
      by_cases same : utxo = utxoID
      · subst same
        rw [if_pos rfl]
        unfold countOf at *
        omega
      · rw [if_neg same]
        omega
    · rw [mem_insert Link.refKey_injective, linking.links, mem_append, mem_singleton]
      obtain ⟨hash, output⟩ := item
      simp only [Link.mk.injEq]
      tauto

theorem Exact.Add_ok (exact : rl.Exact) (unlinked : ∀ link ∈ rl.ref.entries, link.txHash ≠ txHash)
    (distinct : utxoIDs.Nodup) :
    ∃ evicted rl', rl.Add txHash utxoIDs = .ok (evicted, rl') ∧
      Linking rl txHash utxoIDs evicted rl' := by
  induction utxoIDs using reverseRecOn with
  | nil => exact ⟨[], rl, rfl, exact, by simp, by simp⟩
  | append_singleton front utxoID ih =>
    obtain ⟨distinct, _, apart⟩ := nodup_append.mp distinct
    obtain ⟨_, _, run, linking⟩ := ih distinct
    have fresh : utxoID ∉ front := fun known => apart utxoID known utxoID (mem_singleton_self _) rfl
    obtain ⟨evicted, rl', step, linking⟩ := linking.addOne unlinked fresh
    exact ⟨evicted, rl', foldlM_concat_ok run step, linking⟩

private theorem mem_hashes {links : List Link} :
    txHash ∈ links.foldl (fun txHashes link => if txHashes.contains link.txHash then txHashes else
      txHashes ++ [link.txHash])
      txHashes ↔ txHash ∈ txHashes ∨ ∃ link ∈ links, link.txHash = txHash := by
  induction links generalizing txHashes with
  | nil => simp
  | cons link links ih =>
    rw [foldl_cons, ih]
    by_cases known : link.txHash ∈ txHashes
    · rw [if_pos (contains_iff_mem.mpr known), exists_mem_cons_iff]
      constructor
      · rintro (old | new)
        · exact .inl old
        · exact .inr (.inr new)
      · rintro (old | rfl | new)
        · exact .inl old
        · exact .inl known
        · exact .inr new
    · rw [if_neg (mt contains_iff_mem.mp known)]
      simp only [exists_mem_cons_iff, mem_append, mem_singleton, or_assoc, eq_comm]

structure Released (rl : RefLinker) (utxoIDs txHashes : List Bytes32) (rl' : RefLinker) : Prop where
  inverse : rl'.Inverse
  links : rl'.ref.entries = rl.ref.entries.filter fun link => link.utxoID ∉ utxoIDs
  counts : ∀ utxoID, rl'.countOf utxoID = rl.countOf utxoID - utxoIDs.count utxoID
  hashes : ∀ txHash, txHash ∈ txHashes ↔ ∃ link ∈ rl.ref.entries, link.utxoID ∈ utxoIDs ∧
    link.txHash = txHash

theorem Released.linked {rl' : RefLinker} (released : Released rl utxoIDs txHashes rl')
    (utxoID : Bytes32) : rl'.linked utxoID = if utxoID ∈ utxoIDs then 0 else rl.linked utxoID := by
  rw [RefLinker.linked, released.links, countP_filter]
  by_cases mined : utxoID ∈ utxoIDs
  · rw [if_pos mined, countP_eq_zero]
    intro link _
    simp only [Bool.and_eq_true, decide_eq_true_iff, not_and, not_not]
    rintro rfl
    exact mined
  · rw [if_neg mined]
    refine countP_congr fun link _ => ?_
    simp only [Bool.and_eq_true, decide_eq_true_iff, and_iff_left_iff_imp]
    rintro rfl
    exact mined

theorem Released.release {rl' : RefLinker} (released : Released rl done txHashes rl')
    (utxoID : Bytes32) :
    Released rl (done ++ [utxoID]) (RefLinker.release (txHashes, rl') utxoID).1
      (RefLinker.release (txHashes, rl') utxoID).2 := by
  have cut_ref : (RefLinker.release (txHashes, rl') utxoID).2.ref.entries =
      rl'.ref.entries.filter fun link => link.utxoID ≠ utxoID := by
    unfold RefLinker.release
    rw [ref_foldl_cut, entries_foldl_erase Link.refKey_injective]
    refine filter_congr fun link listed => ?_
    simp [mem_filter, (released.inverse link).mp listed]
  have cut_revRef : (RefLinker.release (txHashes, rl') utxoID).2.revRef.entries =
      rl'.revRef.entries.filter fun link => link.utxoID ≠ utxoID := by
    unfold RefLinker.release
    rw [revRef_foldl_cut, entries_foldl_erase Link.revRefKey_injective]
    refine filter_congr fun link listed => ?_
    simp [mem_filter, listed]
  refine ⟨fun link => ?_, ?_, fun other => ?_, fun txHash => ?_⟩
  · rw [cut_ref, cut_revRef, mem_filter, mem_filter, released.inverse link]
  · rw [cut_ref, released.links, filter_filter]
    refine filter_congr fun link _ => ?_
    simp [and_comm]
  · have count : (RefLinker.release (txHashes, rl') utxoID).2.countOf other =
        rl'.countOf other - if other = utxoID then 1 else 0 := by
      unfold RefLinker.release
      rw [countOf_foldl_cut]
      exact RefCounter.Decrement_getD ..
    rw [count, released.counts, count_append, count_singleton, Nat.sub_sub]
    by_cases same : other = utxoID
    · simp [same]
    · simp [same, Ne.symm same]
  · unfold RefLinker.release
    rw [mem_hashes, released.hashes]
    simp only [mem_filter, ← released.inverse _, released.links, decide_eq_true_iff, mem_append,
      mem_singleton]
    constructor
    · rintro (⟨link, listed, known, same⟩ | ⟨link, ⟨⟨listed, _⟩, output⟩, same⟩)
      · exact ⟨link, listed, .inl known, same⟩
      · exact ⟨link, listed, .inr output, same⟩
    · rintro ⟨link, listed, output, same⟩
      by_cases known : link.utxoID ∈ done
      · exact .inl ⟨link, listed, known, same⟩
      · exact .inr ⟨link, ⟨⟨listed, known⟩, output.resolve_left known⟩, same⟩

theorem Inverse.DeleteMined (inverse : rl.Inverse) (txHash : Bytes32) :
    Released rl (rl.minedUTXOIDs txHash) (rl.DeleteMined txHash).1 (rl.DeleteMined txHash).2 := by
  unfold RefLinker.DeleteMined
  generalize rl.minedUTXOIDs txHash = utxoIDs
  induction utxoIDs using reverseRecOn with
  | nil => exact ⟨inverse, by simp, by simp, by simp⟩
  | append_singleton front utxoID ih =>
    rw [foldl_append]
    exact ih.release utxoID

end RefLinker

namespace PendingTxIndexer

structure Indexed (pti : PendingTxIndexer) : Prop where
  inverse : pti.reflink.Inverse
  order : ReverseIndex.Exact InsertionOrderIndexer.key InsertionOrderIndexer.entry pti.order
    pti.order.refs
  epochs : ∀ item ∈ pti.expiration.items.entries, pti.expiration.refs item.txHash = some item.epoch

/-- These transactions have been deleted, and no others. -/
structure Dropped (pti : PendingTxIndexer) (gone : List Bytes32) (pti' : PendingTxIndexer) :
  Prop where
  indexed : pti'.Indexed
  links : ∀ link, link ∈ pti'.reflink.ref.entries ↔ link ∈ pti.reflink.ref.entries ∧
    link.txHash ∉ gone
  order : ∀ txHash, pti'.order.refs txHash = if txHash ∈ gone then none else pti.order.refs txHash
  items : ∀ item, item ∈ pti'.expiration.items.entries ↔ item ∈ pti.expiration.items.entries ∧
    item.txHash ∉ gone
  refs : pti'.expiration.refs = pti.expiration.refs
  counts : ∀ utxoID extra, pti.reflink.countOf utxoID = pti.reflink.linked utxoID + extra →
    pti'.reflink.countOf utxoID = pti'.reflink.linked utxoID + extra
  fewer : ∀ utxoID, pti'.reflink.countOf utxoID ≤ pti.reflink.countOf utxoID

theorem Indexed.dropped (indexed : pti.Indexed) : Dropped pti [] pti where
  indexed := indexed
  links := by simp
  order := by simp
  items := by simp
  refs := rfl
  counts := fun _ _ above => above
  fewer := fun _ => le_rfl

variable {pti : PendingTxIndexer}

theorem Indexed.deleteOrder (indexed : pti.Indexed) (txHash : Bytes32) :
    ∃ order, orKeep (pti.order.Delete txHash) pti.order = .ok order ∧
      ReverseIndex.Exact InsertionOrderIndexer.key InsertionOrderIndexer.entry order order.refs ∧
      order.refs = Function.update pti.order.refs txHash none := by
  cases found : pti.order.refs txHash with
  | none =>
    refine ⟨pti.order, ?_, indexed.order, ?_⟩
    · rw [InsertionOrderIndexer.Delete, ReverseIndex.drop, found]
      rfl
    · rw [← found, update_eq_self]
  | some time =>
    have deleted : pti.order.Delete txHash = .ok _ := indexed.order.drop_ok found Fault.keyNotFound
    obtain ⟨_, exact⟩ := indexed.order.drop deleted
    refine ⟨_, ?_, exact.refs.symm ▸ exact, exact.refs⟩
    rw [deleted]
    rfl

theorem Indexed.dropExpiration (indexed : pti.Indexed) (txHash : Bytes32) :
    ∃ list, orKeep (pti.expiration.Drop txHash) pti.expiration = .ok list ∧ list.refs =
      pti.expiration.refs ∧
      ∀ item, item ∈ list.items.entries ↔ item ∈ pti.expiration.items.entries ∧ item.txHash ≠
        txHash := by
  unfold EpochConstrainedList.Drop
  cases found : pti.expiration.refs txHash with
  | none =>
    refine ⟨pti.expiration, rfl, rfl, fun item => ⟨fun listed => ⟨listed, ?_⟩, And.left⟩⟩
    rintro rfl
    rw [indexed.epochs item listed] at found
    cases found
  | some epoch =>
    refine ⟨_, rfl, rfl, fun item => ?_⟩
    rw [mem_erase Expiring.key_injective]
    refine and_congr_right fun listed => not_congr ⟨fun same => by rw [same], ?_⟩
    rintro rfl
    rw [indexed.epochs item listed, Option.some.injEq] at found
    rw [← found]

theorem Dropped.deleteOne (dropped : Dropped pti gone pti') (txHash : Bytes32) :
    ∃ pti'', pti'.DeleteOne txHash = .ok pti'' ∧ Dropped pti (gone ++ [txHash]) pti'' := by
  obtain ⟨order, order_ok, exact, times⟩ := dropped.indexed.deleteOrder txHash
  obtain ⟨list, list_ok, refs, items⟩ := dropped.indexed.dropExpiration txHash
  refine ⟨⟨order, pti'.reflink.Delete txHash, list⟩, ?_,
    ⟨dropped.indexed.inverse.Delete txHash, exact, ?_⟩, fun link => ?_, fun other => ?_, fun item =>
    ?_, refs.trans dropped.refs, fun utxoID extra above => ?_, fun utxoID => ?_⟩
  · unfold DeleteOne
    rw [order_ok, list_ok]
    rfl
  · intro item listed
    rw [refs]
    exact dropped.indexed.epochs item ((items item).mp listed).1
  · rw [RefLinker.mem_Delete, dropped.links, mem_append, mem_singleton, not_or, and_assoc]
  · rw [times]
    by_cases same : other = txHash
    · rw [same, update_self, if_pos (mem_append_right _ (mem_singleton.mpr rfl))]
    · rw [update_of_ne same, dropped.order]
      simp [same]
  · rw [items, dropped.items, mem_append, mem_singleton, not_or, and_assoc]
  · exact RefLinker.countOf_Delete (dropped.counts utxoID extra above) txHash
  · have less := dropped.fewer utxoID
    rw [RefLinker.countOf_Delete_eq]
    omega

theorem Indexed.deleteAll (indexed : pti.Indexed) (txHashes : List Bytes32) :
    ∃ pti', txHashes.foldlM DeleteOne pti = .ok pti' ∧ Dropped pti txHashes pti' := by
  induction txHashes using reverseRecOn with
  | nil => exact ⟨pti, rfl, indexed.dropped⟩
  | append_singleton front txHash ih =>
    obtain ⟨_, run, dropped⟩ := ih
    obtain ⟨pti', step, dropped⟩ := dropped.deleteOne txHash
    exact ⟨pti', foldlM_concat_ok run step, dropped⟩

end PendingTxIndexer

/-- What transactions consume: something, and nothing twice. -/
structure Spending where
  utxoIDs : Bytes32 → List Bytes32
  distinct : ∀ txHash, (utxoIDs txHash).Nodup
  nonempty : ∀ txHash, utxoIDs txHash ≠ []

inductive PoolOperation
  | add (time : ℕ) (epoch : BitVec 32) (txHash : Bytes32)
  | deleteOne (txHash : Bytes32)
  | deleteMined (txHash : Bytes32)
  | dropBefore (epoch : BitVec 32)

namespace PendingTxIndexer

variable (spending : Spending)

def perform (pti : PendingTxIndexer) : PoolOperation → Except Fault PendingTxIndexer
  | .add time epoch txHash => do
    let (_, pti) ← pti.Add time epoch txHash (spending.utxoIDs txHash)
    pure pti
  | .deleteOne txHash => pti.DeleteOne txHash
  | .deleteMined txHash => do
    let (_, pti) ← pti.DeleteMined txHash
    pure pti
  | .dropBefore epoch => do
    let (_, pti) ← pti.DropBefore epoch
    pure pti

/-- What an operation leaves in the database: nothing new if it fails. -/
def next (pti : PendingTxIndexer) (operation : PoolOperation) : PendingTxIndexer :=
  match pti.perform spending operation with
  | .ok pti' => pti'
  | .error _ => pti

def Linked (pti : PendingTxIndexer) (txHash : Bytes32) : Prop := ∃ link ∈ pti.reflink.ref.entries,
    link.txHash = txHash

/-- Only transactions that are not linked yet are added. -/
def Admitted (pti : PendingTxIndexer) : PoolOperation → Prop
  | .add _ _ txHash => ∀ link ∈ pti.reflink.ref.entries, link.txHash ≠ txHash
  | _ => True

def Shares (txHash other : Bytes32) : Prop := ∃ utxoID ∈ spending.utxoIDs other,
    utxoID ∈ spending.utxoIDs txHash

/-- The transaction is in none of the indexes. -/
structure Absent (pti : PendingTxIndexer) (txHash : Bytes32) : Prop where
  ref : ∀ link ∈ pti.reflink.ref.entries, link.txHash ≠ txHash
  revRef : ∀ link ∈ pti.reflink.revRef.entries, link.txHash ≠ txHash
  order : ∀ time, pti.order.table (time, txHash) = none
  expiration : ∀ item ∈ pti.expiration.items.entries, item.txHash ≠ txHash

/-- The indexes say the same about the transaction. -/
structure Unchanged (pti pti' : PendingTxIndexer) (txHash : Bytes32) : Prop where
  ref : ∀ utxoID, (⟨txHash, utxoID⟩ : Link) ∈ pti'.reflink.ref.entries ↔
    ⟨txHash, utxoID⟩ ∈ pti.reflink.ref.entries
  revRef : ∀ utxoID, (⟨txHash, utxoID⟩ : Link) ∈ pti'.reflink.revRef.entries ↔
    ⟨txHash, utxoID⟩ ∈ pti.reflink.revRef.entries
  order : ∀ time, pti'.order.table (time, txHash) = pti.order.table (time, txHash)
  expiration : ∀ epoch, (⟨epoch, txHash⟩ : Expiring) ∈ pti'.expiration.items.entries ↔
    ⟨epoch, txHash⟩ ∈ pti.expiration.items.entries

structure Cleared (pti : PendingTxIndexer) (txHash : Bytes32) (pti' : PendingTxIndexer) : Prop where
  gone : ∀ other, Shares spending txHash other → pti'.Absent other
  kept : ∀ other, ¬Shares spending txHash other → pti.Unchanged pti' other

def Faithful (pti : PendingTxIndexer) (operation : PoolOperation) : Prop :=
  ∃ pti', pti.perform spending operation = .ok pti' ∧ pti'.reflink.Exact ∧
    match operation with
    | .deleteMined txHash => Cleared spending pti txHash pti'
    | _ => True

/-- No other transaction is linked to what a mined one consumes. -/
def Unrivalled (pti : PendingTxIndexer) : PoolOperation → Prop
  | .deleteMined txHash => ∀ link ∈ pti.reflink.ref.entries, link.utxoID ∈ spending.utxoIDs txHash →
      link.txHash = txHash
  | _ => True

instance (pti : PendingTxIndexer) (operation : PoolOperation) :
    Decidable (pti.Admitted operation) :=
  match operation with
  | .add _ _ txHash =>
    inferInstanceAs (Decidable (∀ link ∈ pti.reflink.ref.entries, link.txHash ≠ txHash))
  | .deleteOne _ | .deleteMined _ | .dropBefore _ => .isTrue trivial

instance (pti : PendingTxIndexer) (operation : PoolOperation) :
    Decidable (Unrivalled spending pti operation) :=
  match operation with
  | .deleteMined txHash => inferInstanceAs (Decidable (∀ link ∈ pti.reflink.ref.entries,
      link.utxoID ∈ spending.utxoIDs txHash → link.txHash = txHash))
  | .add .. | .deleteOne _ | .dropBefore _ => .isTrue trivial

/-- A transaction is linked to all it consumes, and in the other indexes only if it is linked. -/
structure Pooled (pti : PendingTxIndexer) : Prop where
  exact : pti.reflink.Exact
  indexed : pti.Indexed
  whole : ∀ link ∈ pti.reflink.ref.entries, ∀ utxoID, (⟨link.txHash, utxoID⟩ : Link) ∈
    pti.reflink.ref.entries ↔ utxoID ∈ spending.utxoIDs link.txHash
  ordered : ∀ txHash, pti.order.refs txHash ≠ none → pti.Linked txHash
  expiring : ∀ item ∈ pti.expiration.items.entries, pti.Linked item.txHash

variable {spending}

variable {pti pti' : PendingTxIndexer}

theorem Indexed.order_none (indexed : pti.Indexed) (absent : pti.order.refs txHash = none)
    (time : ℕ) : pti.order.table (time, txHash) = none := by
  rw [indexed.order.table_eq_none_iff]
  rintro other ref found same
  cases same
  rw [absent] at found
  cases found

theorem Indexed.order_congr (indexed : pti.Indexed) (indexed' : pti'.Indexed)
    (same : pti'.order.refs txHash = pti.order.refs txHash) (time : ℕ) :
    pti'.order.table (time, txHash) = pti.order.table (time, txHash) := by
  have listed : ∀ {pti : PendingTxIndexer} (_ : pti.Indexed), pti.order.table (time, txHash) =
      some () ↔ pti.order.refs txHash = some time := by
    intro pti indexed
    rw [indexed.order.table]
    constructor
    · rintro ⟨other, ref, found, sameKey, _⟩
      cases sameKey
      exact found
    · exact fun found => ⟨txHash, time, found, rfl, rfl⟩
  refine Option.ext fun filed => ?_
  cases filed
  rw [listed indexed', listed indexed, same]

section

variable (pooled : Pooled spending pti)

include pooled

theorem Pooled.absent (unlinked : ¬pti.Linked txHash) : pti.Absent txHash where
  ref := fun link listed same => unlinked ⟨link, listed, same⟩
  revRef := fun link listed same => unlinked ⟨link, (pooled.exact.inverse link).mpr listed, same⟩
  order := pooled.indexed.order_none (by_contra fun ordered =>
    unlinked (pooled.ordered txHash ordered))
  expiration := fun item listed same => unlinked (same ▸ pooled.expiring item listed)

theorem Pooled.dropped (dropped : Dropped pti gone pti') : Pooled spending pti' where
  exact := by
    refine ⟨fun utxoID => dropped.counts utxoID 0 (pooled.exact.counts utxoID), fun utxoID =>
      ?_, dropped.indexed.inverse⟩
    exact (dropped.fewer utxoID).trans (pooled.exact.bounded utxoID)
  indexed := dropped.indexed
  whole := by
    intro link listed utxoID
    obtain ⟨old, kept⟩ := (dropped.links link).mp listed
    rw [dropped.links, pooled.whole link old]
    exact and_iff_left kept
  ordered := by
    intro txHash ordered
    rw [dropped.order] at ordered
    by_cases listed : txHash ∈ gone
    · rw [if_pos listed] at ordered
      exact absurd rfl ordered
    · rw [if_neg listed] at ordered
      obtain ⟨link, linked, rfl⟩ := pooled.ordered txHash ordered
      exact ⟨link, (dropped.links link).mpr ⟨linked, listed⟩, rfl⟩
  expiring := by
    intro item listed
    obtain ⟨old, kept⟩ := (dropped.items item).mp listed
    obtain ⟨link, linked, same⟩ := pooled.expiring item old
    exact ⟨link, (dropped.links link).mpr ⟨linked, same ▸ kept⟩, same⟩

theorem Pooled.deleteOne (txHash : Bytes32) :
    ∃ pti', pti.DeleteOne txHash = .ok pti' ∧ Pooled spending pti' := by
  obtain ⟨pti', deleted, dropped⟩ := pooled.indexed.dropped.deleteOne txHash
  exact ⟨pti', deleted, pooled.dropped dropped⟩

theorem Pooled.dropBefore (epoch : BitVec 32) :
    ∃ txHashes pti', pti.DropBefore epoch = .ok (txHashes, pti') ∧ Pooled spending pti' := by
  have fewer : ∀ item ∈ (pti.expiration.DropBefore epoch).2.items.entries,
      item ∈ pti.expiration.items.entries := by
    intro item listed
    unfold EpochConstrainedList.DropBefore at listed
    rw [entries_foldl_erase Expiring.key_injective] at listed
    exact (mem_filter.mp listed).1
  have expired : Pooled spending { pti with expiration := (pti.expiration.DropBefore epoch).2 } :=
    ⟨pooled.exact, ⟨pooled.indexed.inverse, pooled.indexed.order, fun item listed =>
      pooled.indexed.epochs item (fewer item listed)⟩,
      pooled.whole, pooled.ordered, fun item listed => pooled.expiring item (fewer item listed)⟩
  obtain ⟨pti', deleted, dropped⟩ := expired.indexed.deleteAll (pti.expiration.DropBefore epoch).1
  refine ⟨(pti.expiration.DropBefore epoch).1, pti', ?_, expired.dropped dropped⟩
  unfold DropBefore
  simp only [deleted]
  rfl

theorem Pooled.add (time : ℕ) (epoch : BitVec 32)
    (unlinked : ∀ link ∈ pti.reflink.ref.entries, link.txHash ≠ txHash) :
    ∃ evicted pti', pti.Add time epoch txHash (spending.utxoIDs txHash) = .ok (evicted, pti') ∧
      Pooled spending pti' := by
  have new : ¬pti.Linked txHash := fun ⟨link, listed, same⟩ => unlinked link listed same
  have unordered : pti.order.refs txHash = none := by_contra fun ordered =>
    new (pooled.ordered txHash ordered)
  obtain ⟨evicted, reflink, added, linking⟩ :=
    pooled.exact.Add_ok unlinked (spending.distinct txHash)
  have stays : txHash ∉ evicted := by
    intro gone
    obtain ⟨link, listed, same⟩ := linking.evicted txHash gone
    exact unlinked link listed same
  have order : ReverseIndex.Exact InsertionOrderIndexer.key InsertionOrderIndexer.entry
      (pti.order.Add time txHash) (update pti.order.refs txHash (some time)) := by
    refine pooled.indexed.order.put unordered fun other ref found same => ?_
    cases same
    rw [unordered] at found
    cases found
  have indexed : Indexed ⟨pti.order.Add time txHash, reflink, pti.expiration⟩ :=
    ⟨linking.exact.inverse, order, pooled.indexed.epochs⟩
  obtain ⟨pti', deleted, dropped⟩ := indexed.deleteAll evicted
  have links : ∀ link, link ∈ pti'.reflink.ref.entries ↔
      (link ∈ pti.reflink.ref.entries ∧ link.txHash ∉ evicted) ∨
        (link.txHash = txHash ∧ link.utxoID ∈ spending.utxoIDs txHash) := by
    intro link
    rw [dropped.links, linking.links]
    constructor
    · exact And.left
    · intro either
      refine ⟨either, ?_⟩
      rcases either with ⟨_, kept⟩ | ⟨same, _⟩
      · exact kept
      · rwa [same]
  have still : ∀ other, pti.Linked other → other ∉ evicted → pti'.Linked other := by
    rintro other ⟨link, listed, rfl⟩ kept
    exact ⟨link, (links link).mpr (.inl ⟨listed, kept⟩), rfl⟩
  have own : pti'.Linked txHash := by
    obtain ⟨utxoID, consumed⟩ := exists_mem_of_ne_nil _ (spending.nonempty txHash)
    exact ⟨⟨txHash, utxoID⟩, (links _).mpr (.inr ⟨rfl, consumed⟩), rfl⟩
  refine ⟨evicted, { pti' with expiration := pti'.expiration.Append epoch txHash }, ?_,
    ⟨?_, ?_, dropped.indexed.inverse⟩, ⟨dropped.indexed.inverse, dropped.indexed.order, ?_⟩, ?_, ?_,
    ?_⟩
  · exact bind_ok_iff.mpr ⟨(evicted, reflink), added, bind_ok_iff.mpr ⟨pti', deleted, rfl⟩⟩
  · exact fun utxoID => dropped.counts utxoID 0 (linking.exact.counts utxoID)
  · exact fun utxoID => (dropped.fewer utxoID).trans (linking.exact.bounded utxoID)
  · intro item listed
    rcases (mem_insert Expiring.key_injective).mp listed with rfl | old
    · exact update_self ..
    · have before := ((dropped.items item).mp old).1
      have other : item.txHash ≠ txHash := fun same => new (same ▸ pooled.expiring item before)
      have known := update_of_ne other (some epoch) pti'.expiration.refs
      rw [dropped.refs] at known
      rw [EpochConstrainedList.Append, dropped.refs]
      exact known.trans (pooled.indexed.epochs item before)
  · intro link listed utxoID
    rw [links]
    rcases (links link).mp listed with ⟨old, kept⟩ | ⟨same, _⟩
    · rw [pooled.whole link old]
      constructor
      · rintro (⟨consumed, _⟩ | ⟨same, _⟩)
        · exact consumed
        · exact absurd same (unlinked link old)
      · exact fun consumed => .inl ⟨consumed, kept⟩
    · rw [same]
      constructor
      · rintro (⟨old, _⟩ | ⟨_, consumed⟩)
        · exact absurd rfl (unlinked _ old)
        · exact consumed
      · exact fun consumed => .inr ⟨rfl, consumed⟩
  · intro other ordered
    by_cases same : other = txHash
    · rw [same]
      exact own
    · have before :
          (if other ∈ evicted then none else update pti.order.refs txHash (some time) other) ≠
          none :=
        dropped.order other ▸ ordered
      by_cases gone : other ∈ evicted
      · rw [if_pos gone] at before
        exact absurd rfl before
      · rw [if_neg gone, update_of_ne same] at before
        exact still other (pooled.ordered other before) gone
  · intro item listed
    rcases (mem_insert Expiring.key_injective).mp listed with rfl | old
    · exact own
    · obtain ⟨before, kept⟩ := (dropped.items item).mp old
      exact still _ (pooled.expiring item before) kept

end

theorem mem_minedUTXOIDs {rl : RefLinker} :
    utxoID ∈ rl.minedUTXOIDs txHash ↔ (⟨txHash, utxoID⟩ : Link) ∈ rl.ref.entries := by
  simp only [RefLinker.minedUTXOIDs, mem_map, mem_filter, decide_eq_true_iff]
  constructor
  · rintro ⟨⟨hash, output⟩, ⟨listed, rfl⟩, rfl⟩
    exact listed
  · exact fun listed => ⟨_, ⟨listed, rfl⟩, rfl⟩

theorem nodup_minedUTXOIDs {rl : RefLinker} : (rl.minedUTXOIDs txHash).Nodup := by
  refine Nodup.map_on ?_ (rl.ref.nodup.filter _)
  rintro ⟨hash, output⟩ listed ⟨hash', output'⟩ listed' rfl
  simp only [mem_filter, decide_eq_true_iff] at listed listed'
  rw [listed.2, listed'.2]

theorem Indexed.deleteMined (indexed : pti.Indexed) (txHash : Bytes32) :
    ∃ txHashes reflink pti', pti.DeleteMined txHash = .ok (txHashes ++ [txHash], pti') ∧
      RefLinker.Released pti.reflink (pti.reflink.minedUTXOIDs txHash) txHashes reflink ∧
      Dropped { pti with reflink := reflink } (txHashes ++ [txHash]) pti' := by
  have released := indexed.inverse.DeleteMined txHash
  have mid : Indexed { pti with reflink := (pti.reflink.DeleteMined txHash).2 } :=
    ⟨released.inverse, indexed.order, indexed.epochs⟩
  obtain ⟨pti', deleted, dropped⟩ := mid.deleteAll ((pti.reflink.DeleteMined txHash).1 ++ [txHash])
  exact ⟨_, _, pti', bind_ok_iff.mpr ⟨pti', deleted, rfl⟩, released, dropped⟩

section Unrivalled

variable {pti : PendingTxIndexer} (pooled : Pooled spending pti)
include pooled

theorem Pooled.consumed_of_mined (mined : utxoID ∈ pti.reflink.minedUTXOIDs txHash) :
    utxoID ∈ spending.utxoIDs txHash := by
  have listed := mem_minedUTXOIDs.mp mined
  exact (pooled.whole _ listed utxoID).mp listed

variable (alone : ∀ link ∈ pti.reflink.ref.entries, link.utxoID ∈ spending.utxoIDs txHash →
  link.txHash = txHash)
include alone

theorem Pooled.linked_one (mined : utxoID ∈ pti.reflink.minedUTXOIDs txHash) :
    pti.reflink.linked utxoID = 1 := by
  rw [RefLinker.linked, ← count_eq_one_of_mem pti.reflink.ref.nodup (mem_minedUTXOIDs.mp mined),
    count]
  refine countP_congr fun link listed => ?_
  obtain ⟨hash, output⟩ := link
  simp only [decide_eq_true_iff, beq_iff_eq, Link.mk.injEq]
  refine ⟨?_, And.right⟩
  rintro rfl
  exact ⟨alone _ listed (pooled.consumed_of_mined mined), rfl⟩

theorem Pooled.dropMined (released : RefLinker.Released pti.reflink
    (pti.reflink.minedUTXOIDs txHash) txHashes rl)
    (dropped : Dropped { pti with reflink := rl } (txHashes ++ [txHash]) pti') :
    Dropped pti (txHashes ++ [txHash]) pti' where
  indexed := dropped.indexed
  links := by
    intro link
    rw [dropped.links, released.links, mem_filter, decide_eq_true_iff, and_assoc]
    refine and_congr_right fun listed => and_iff_right_of_imp fun kept mined => kept ?_
    exact mem_append_left _ ((released.hashes _).mpr ⟨link, listed, mined, rfl⟩)
  order := dropped.order
  items := dropped.items
  refs := dropped.refs
  counts := by
    intro utxoID extra above
    refine dropped.counts utxoID extra ?_
    rw [released.counts, released.linked, above]
    by_cases mined : utxoID ∈ pti.reflink.minedUTXOIDs txHash
    · rw [if_pos mined, count_eq_one_of_mem nodup_minedUTXOIDs mined, pooled.linked_one alone mined]
      omega
    · rw [if_neg mined, count_eq_zero_of_not_mem mined, Nat.sub_zero]
  fewer := by
    intro utxoID
    refine (dropped.fewer utxoID).trans ?_
    rw [released.counts]
    exact Nat.sub_le ..

theorem Pooled.cleared
    (released : RefLinker.Released pti.reflink (pti.reflink.minedUTXOIDs txHash) txHashes rl)
    (dropped : Dropped pti (txHashes ++ [txHash]) pti') : Cleared spending pti txHash pti' where
  gone := by
    rintro other ⟨utxoID, consumed, shared⟩
    refine (pooled.dropped dropped).absent ?_
    rintro ⟨link, listed, rfl⟩
    obtain ⟨old, kept⟩ := (dropped.links link).mp listed
    have same := alone _ ((pooled.whole link old utxoID).mpr consumed) shared
    exact kept (mem_append_right _ (mem_singleton.mpr same))
  kept := by
    intro other apart
    have stays : other ∉ txHashes ++ [txHash] := by
      have itself : Shares spending txHash txHash := by
        obtain ⟨utxoID, consumed⟩ := exists_mem_of_ne_nil _ (spending.nonempty txHash)
        exact ⟨utxoID, consumed, consumed⟩
      intro listed
      rcases mem_append.mp listed with rival | same
      · obtain ⟨link, linked, mined, rfl⟩ := (released.hashes other).mp rival
        rw [alone link linked (pooled.consumed_of_mined mined)] at apart
        exact apart itself
      · rw [mem_singleton.mp same] at apart
        exact apart itself
    have ref : ∀ utxoID, (⟨other, utxoID⟩ : Link) ∈ pti'.reflink.ref.entries ↔
        ⟨other, utxoID⟩ ∈ pti.reflink.ref.entries :=
      fun utxoID => (dropped.links _).trans (and_iff_left stays)
    refine ⟨ref, fun utxoID => ?_, ?_, fun epoch => (dropped.items _).trans (and_iff_left stays)⟩
    · rw [← dropped.indexed.inverse, ref, pooled.indexed.inverse]
    · exact pooled.indexed.order_congr dropped.indexed ((dropped.order other).trans (if_neg stays))

end Unrivalled

theorem Pooled.unrivalled (pooled : Pooled spending pti)
    (performed : pti.perform spending (.deleteMined txHash) = .ok pti') (exact : pti'.reflink.Exact)
    (cleared : Cleared spending pti txHash pti') :
    Unrivalled spending pti (.deleteMined txHash) := by
  intro link listed shared
  by_contra rival
  obtain ⟨txHashes, rl, last, deleted, released, dropped⟩ := pooled.indexed.deleteMined txHash
  obtain rfl : last = pti' := by
    rw [perform, deleted] at performed
    exact Except.ok.inj performed
  by_cases linked : pti.Linked txHash
  · -- Both are counted, and one is taken off.
    obtain ⟨own, present, rfl⟩ := linked
    have both : (⟨own.txHash, link.utxoID⟩ : Link) ∈ pti.reflink.ref.entries :=
      (pooled.whole own present _).mpr shared
    have mined := mem_minedUTXOIDs.mpr both
    have parts := countP_eq_countP_filter_add pti.reflink.ref.entries (fun other =>
      other.utxoID = link.utxoID) (fun other => other.txHash = own.txHash)
    rw [RefLinker.countP_link, if_pos both] at parts
    have more : 0 < (pti.reflink.ref.entries.filter fun other =>
        !decide (other.txHash = own.txHash)).countP fun other => other.utxoID = link.utxoID := by
      refine countP_pos_iff.mpr ⟨link, mem_filter.mpr ⟨listed, ?_⟩, decide_eq_true rfl⟩
      simpa using rival
    have none : rl.linked link.utxoID = 0 := (released.linked _).trans (if_pos mined)
    have stale := dropped.counts link.utxoID (rl.countOf link.utxoID) (by rw [none, Nat.zero_add])
    rw [exact.counts, released.counts, count_eq_one_of_mem nodup_minedUTXOIDs mined,
      pooled.exact.counts, RefLinker.linked] at stale
    unfold RefLinker.linked at stale
    omega
  · -- Nothing is known of what the mined transaction consumes.
    have unknown : pti.reflink.minedUTXOIDs txHash = [] :=
      eq_nil_iff_forall_not_mem.mpr fun utxoID mined => linked ⟨_, mem_minedUTXOIDs.mp mined, rfl⟩
    rw [unknown] at released
    have stays : link.txHash ∉ txHashes ++ [txHash] := by
      rw [mem_append, mem_singleton, released.hashes]
      rintro (⟨_, _, known, _⟩ | same)
      · cases known
      · exact rival same
    have present : link ∈ last.reflink.ref.entries := by
      rw [dropped.links, released.links]
      exact ⟨mem_filter.mpr ⟨listed, by simp⟩, stays⟩
    have consumed := (pooled.whole link listed link.utxoID).mp listed
    exact (cleared.gone link.txHash ⟨link.utxoID, consumed, shared⟩).ref link present rfl

theorem Pooled.faithful_iff (pooled : Pooled spending pti) (admitted : pti.Admitted operation) :
    (Faithful spending pti operation ↔ Unrivalled spending pti operation) ∧
      (Unrivalled spending pti operation → Pooled spending (pti.next spending operation)) := by
  have done : ∀ pti', pti.perform spending operation = .ok pti' → Pooled spending pti' →
      Pooled spending (pti.next spending operation) := by
    intro pti' performed pooled'
    rw [next, performed]
    exact pooled'
  cases operation with
  | add time epoch txHash =>
    obtain ⟨evicted, pti', added, pooled'⟩ := pooled.add time epoch admitted
    have performed : pti.perform spending (.add time epoch txHash) = .ok pti' := by
      rw [perform, added]
      rfl
    exact ⟨iff_of_true ⟨pti', performed, pooled'.exact, trivial⟩ trivial, fun _ =>
      done pti' performed pooled'⟩
  | deleteOne txHash =>
    obtain ⟨pti', deleted, pooled'⟩ := pooled.deleteOne txHash
    exact ⟨iff_of_true ⟨pti', deleted, pooled'.exact, trivial⟩ trivial, fun _ =>
      done pti' deleted pooled'⟩
  | dropBefore epoch =>
    obtain ⟨txHashes, pti', dropped, pooled'⟩ := pooled.dropBefore epoch
    have performed : pti.perform spending (.dropBefore epoch) = .ok pti' := by
      rw [perform, dropped]
      rfl
    exact ⟨iff_of_true ⟨pti', performed, pooled'.exact, trivial⟩ trivial, fun _ =>
      done pti' performed pooled'⟩
  | deleteMined txHash =>
    obtain ⟨txHashes, rl, pti', deleted, released, dropped⟩ := pooled.indexed.deleteMined txHash
    have performed : pti.perform spending (.deleteMined txHash) = .ok pti' := by
      rw [perform, deleted]
      rfl
    refine ⟨⟨fun ⟨_, performed, exact, cleared⟩ => pooled.unrivalled performed exact cleared,
      fun alone => ?_⟩, fun alone => ?_⟩
    · have all := pooled.dropMined alone released dropped
      exact ⟨pti', performed, (pooled.dropped all).exact, pooled.cleared alone released all⟩
    · exact done pti' performed (pooled.dropped (pooled.dropMined alone released dropped))

theorem Pooled.empty : Pooled spending .empty where
  exact := ⟨fun _ => rfl, fun _ => Nat.zero_le _, fun _ => Iff.rfl⟩
  indexed := ⟨fun _ => Iff.rfl, .nil, nofun⟩
  whole := nofun
  ordered := fun _ ordered => absurd rfl ordered
  expiring := nofun

theorem Pooled.run_iff (pooled : Pooled spending pti)
    (admitted : Keyed.Along (next spending) Admitted pti operations) :
    Keyed.Along (next spending) (Faithful spending) pti operations ↔
      Keyed.Along (next spending) (Unrivalled spending) pti operations := by
  induction operations generalizing pti with
  | nil => exact Iff.rfl
  | cons operation rest ih =>
    obtain ⟨step, later⟩ := pooled.faithful_iff admitted.1
    rw [Keyed.Along, Keyed.Along, step]
    exact and_congr_right fun alone => ih (later alone) admitted.2

/-- In every run the operations keep the links exact, and mined transactions take their competitors
with them, exactly if no transaction is mined while another one is linked to what it consumes. -/
theorem run_faithful_iff (spending : Spending) (operations : List PoolOperation)
    (admitted : Keyed.Along (next spending) Admitted empty operations) :
    Keyed.Along (next spending) (Faithful spending) empty operations ↔
      Keyed.Along (next spending) (Unrivalled spending) empty operations :=
  Pooled.empty.run_iff admitted

def sampleSpending : Spending := ⟨fun _ => [9], fun _ => List.nodup_singleton _, fun _ =>
    List.cons_ne_nil _ _⟩

theorem single_run_faithful : Keyed.Along (next sampleSpending) (Faithful sampleSpending) empty
    [.add 0 1 1, .add 1 1 2, .deleteOne 2, .deleteMined 1] :=
  (run_faithful_iff sampleSpending _ (by decide +kernel)).mpr (by decide +kernel)

/-- Two transactions for one output: when the first is mined the second goes, and the counter still
has it. -/
theorem counter_stale :
    Keyed.Along (next sampleSpending) Admitted empty [.add 0 1 1, .add 1 1 2, .deleteMined 1] ∧
    ¬Keyed.Along (next sampleSpending) (Faithful sampleSpending) empty [.add 0 1 1, .add 1 1 2,
      .deleteMined 1] := by
  refine ⟨by decide +kernel, ?_⟩
  rintro ⟨_, _, ⟨pti, performed, exact, _⟩, _⟩
  have counts :
      (perform sampleSpending (next sampleSpending (next sampleSpending empty (.add 0 1 1))
      (.add 1 1 2))
      (.deleteMined 1)).map (fun pti => (pti.reflink.countOf 9, pti.reflink.linked 9)) =
        .ok (1, 0) := by decide +kernel
  rw [performed] at counts
  obtain ⟨count, linked⟩ := Prod.mk.inj (Except.ok.inj counts)
  have same := exact.counts 9
  rw [count, linked] at same
  cases same

end PendingTxIndexer

end AliceNet.Application
