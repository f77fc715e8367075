import AliceNet.Application.DataStores
import AliceNet.Application.Ledger
import AliceNet.BadgerTrie.Correctness
import AliceNet.Library.Cursor

/-! The data stores of an owner, page by page. -/

namespace AliceNet.Application

open Outcome
open Consensus (Fault)
open DataIndex
open BadgerTrie (sampleKey)
open List hiding count

structure DataEntry where
  index : Bytes32
  utxoID : Bytes32
  deriving DecidableEq, Repr

namespace DataIndex

/-- The entries of one owner. -/
abbrev Table := SortedTable DataEntry fun entry => entry.index.toNat

def collect (num : ℕ) (startIndex : Bytes32) : List DataEntry → (result : List DataEntry) →
    List DataEntry
  | [], result => result
  | entry :: rest, result =>
    if result = [] ∧ num ≠ 1 ∧ entry.index = startIndex then collect num startIndex rest result
    else
      let result := result ++ [entry]
      if num ≤ result.length then result else collect num startIndex rest result

/-- An empty start index stands for the one of zeros. -/
def PaginateDataStores (table : Table) (num : ℕ) (startIndex : Option Bytes32) : List DataEntry :=
  collect (min num 256) (startIndex.getD 0) (table.seek (startIndex.getD 0).toNat) []

/-- The entries from which a page is taken. -/
def candidates (table : Table) (num : ℕ) (startIndex : Option Bytes32) : List DataEntry :=
  if num = 1 then table.seek (startIndex.getD 0).toNat else table.after (startIndex.getD 0).toNat

private theorem collect_fresh (fresh : ∀ entry ∈ entries, entry.index ≠ startIndex)
    (room : result.length < num) :
    collect num startIndex entries result = result ++ entries.take (num - result.length) := by
  induction entries generalizing result with
  | nil => simp [collect]
  | cons entry rest ih =>
    rw [forall_mem_cons] at fresh
    have size : (result ++ [entry]).length = result.length + 1 := by simp
    rw [collect, if_neg fun ⟨_, _, same⟩ => fresh.1 same]
    obtain ⟨more, remains⟩ : ∃ more, num - result.length = more + 1 :=
      ⟨num - result.length - 1, by omega⟩
    rw [remains, take_succ_cons]
    by_cases full : num ≤ (result ++ [entry]).length
    · have last : more = 0 := by omega
      rw [if_pos full, last, take_zero]
    · have next : num - (result ++ [entry]).length = more := by omega
      rw [if_neg full, ih fresh.2 (by omega), next, append_assoc, singleton_append]

theorem PaginateDataStores_eq (table : Table) (startIndex : Option Bytes32) (some : 1 ≤ num) :
    PaginateDataStores table num startIndex = (candidates table num startIndex).take
      (min num 256) := by
  unfold PaginateDataStores candidates
  generalize startIndex.getD 0 = start
  by_cases one : num = 1
  · subst one
    cases table.seek start.toNat <;> rfl
  · rw [if_neg one]
    have fresh : ∀ entry ∈ table.after start.toNat, entry.index ≠ start := by
      intro entry listed same
      rw [SortedTable.after, mem_filter, same] at listed
      simp at listed
    have taken : collect (min num 256) start (table.after start.toNat) [] =
        (table.after start.toNat).take (min num 256) := by
      rw [collect_fresh fresh (by rw [length_nil]; omega)]
      rfl
    by_cases present : ∃ entry ∈ table.entries, entry.index = start
    · obtain ⟨entry, mem, rfl⟩ := present
      rw [SortedTable.seek_of_mem mem, collect, if_pos ⟨rfl, by omega, rfl⟩, taken]
    · rw [SortedTable.seek_of_absent fun entry mem same =>
        present ⟨entry, mem, BitVec.eq_of_toNat_eq same⟩, taken]

end DataIndex

namespace UTXOHandler

/-- The check of one item. -/
def isListed (s : State) (height : ℕ) (item : DataEntry) : Except Fault Bool :=
  match s.utxos item.utxoID with
  | some (.dataStore ds) => match ds.dsPreImage.isExpired height with
    | .ok false => s.trie.contains item.utxoID
    | _ => pure false
  | _ => pure false

/-- The loop over the items of one page of the index. -/
def fill (check : DataEntry → Except Fault Bool) (numItems : ℕ) :
    List DataEntry → (resp : List DataEntry) → Except Fault (List DataEntry)
  | [], resp => pure resp
  | item :: rest, resp => do
    if ← check item then
      let resp := resp ++ [item]
      if numItems ≤ resp.length then pure resp else fill check numItems rest resp
    else fill check numItems rest resp

/-- The loop over the pages of the index, for so many rounds. -/
def pageRounds (table : DataIndex.Table) (check : DataEntry → Except Fault Bool) (numItems : ℕ) :
    (rounds : ℕ) → (startIndex : Option Bytes32) → (resp : List DataEntry) →
    Option (Except Fault (List DataEntry))
  | 0, _, _ => none
  | rounds + 1, startIndex, resp =>
    if resp.length = numItems then some (pure resp)
    else
      let pageResp := DataIndex.PaginateDataStores table numItems startIndex
      if pageResp = [] then some (pure resp)
      else match fill check numItems pageResp resp with
        | .error failure => some (.error failure)
        | .ok resp =>
          if numItems ≤ resp.length then some (pure resp)
          else pageRounds table check numItems rounds
            (match resp.getLast? with | some item => some item.index | none => startIndex) resp

/-- The height that is asked for is the next one, in 32 bits. -/
def nextHeight (currentHeight : ℕ) : ℕ := (currentHeight + 1) % 2 ^ 32

/-- The call returns, with this answer. -/
def PaginateDataByOwner (s : State) (table : DataIndex.Table) (currentHeight numItems : ℕ)
    (startIndex : Option Bytes32) (answer : Except Fault (List DataEntry)) : Prop :=
  ∃ rounds, pageRounds table (isListed s (nextHeight currentHeight)) numItems rounds startIndex [] =
    some answer

section Rounds

variable {check : DataEntry → Except Fault Bool}

/-- The item is taken. -/
def taken (check : DataEntry → Except Fault Bool) (item : DataEntry) : Bool :=
  match check item with
  | .ok true => true
  | _ => false

/-- The answers to all checks of a page. -/
def Answered (check : DataEntry → Except Fault Bool) (items : List DataEntry) : Prop :=
  ∀ item ∈ items, ∃ listed, check item = .ok listed

theorem fill_cases {page resp : List DataEntry} (room : resp.length < num) :
    Answered check page ∧ resp.length + (page.filter (taken check)).length < num ∧
      fill check num page resp = .ok (resp ++ page.filter (taken check)) ∨
    ¬(Answered check page ∧ resp.length + (page.filter (taken check)).length < num) ∧
      ((∃ failure, fill check num page resp = .error failure) ∨ ∃ result, fill check num page resp =
        .ok result ∧
        num ≤ result.length ∧ result = resp ++ (page.filter (taken check)).take
          (num - resp.length)) := by
  induction page generalizing resp with
  | nil =>
    refine .inl ⟨nofun, room, ?_⟩
    rw [filter_nil, append_nil]
    rfl
  | cons item rest ih =>
    cases answer : check item with
    | error failure =>
      refine .inr ⟨fun ⟨answered, _⟩ => ?_, .inl ⟨failure, ?_⟩⟩
      · obtain ⟨_, ok⟩ := answered item mem_cons_self
        rw [answer] at ok
        cases ok
      · rw [fill, answer]
        rfl
    | ok listed =>
      have answered : Answered check (item :: rest) ↔ Answered check rest := by
        rw [Answered, forall_mem_cons]
        exact and_iff_right ⟨listed, answer⟩
      cases listed with
      | false =>
        have dropped : (item :: rest).filter (taken check) = rest.filter (taken check) :=
          filter_cons_of_neg (by rw [taken, answer]; nofun)
        have step : fill check num (item :: rest) resp = fill check num rest resp := by
          rw [fill, answer]
          rfl
        rw [answered, dropped, step]
        exact ih room
      | true =>
        have kept : (item :: rest).filter (taken check) = item :: rest.filter (taken check) :=
          filter_cons_of_pos (by rw [taken, answer])
        have step : fill check num (item :: rest) resp = if num ≤ (resp ++ [item]).length then
            pure (resp ++ [item]) else fill check num rest (resp ++ [item]) := by
          rw [fill, answer]
          rfl
        have size : (resp ++ [item]).length = resp.length + 1 := by simp
        have count : resp.length + (item :: rest.filter (taken check)).length =
            (resp ++ [item]).length + (rest.filter (taken check)).length := by
          rw [length_cons, size]
          omega
        have first : resp ++ (item :: rest.filter (taken check)).take (num - resp.length) =
            resp ++ [item] ++ (rest.filter (taken check)).take (num - (resp ++ [item]).length) := by
          obtain ⟨more, remains⟩ : ∃ more, num - resp.length = more + 1 :=
            ⟨num - resp.length - 1, by omega⟩
          rw [remains, take_succ_cons, append_assoc, singleton_append, size, Nat.sub_add_eq,
            remains, Nat.add_sub_cancel]
        rw [answered, kept, step, count, first]
        by_cases full : num ≤ (resp ++ [item]).length
        · rw [if_pos full, Nat.sub_eq_zero_of_le full, take_zero, append_nil]
          exact .inr ⟨fun ⟨_, fewer⟩ => by omega, .inr ⟨_, rfl, full, rfl⟩⟩
        · have joined : resp ++ item :: rest.filter (taken check) = resp ++ [item] ++
            rest.filter (taken check) := by simp
          rw [if_neg full, joined]
          exact ih (by omega)

def Stuck (check : DataEntry → Except Fault Bool) (num count : ℕ) (items : List DataEntry) : Prop :=
  ∃ before after, items = before ++ after ∧ Answered check before ∧
    count + (before.filter (taken check)).length < num ∧ after ≠ [] ∧
    ∀ item ∈ after.take (min num 256), check item = .ok false

private theorem filter_taken_of_refused {items : List DataEntry}
    (refused : ∀ item ∈ items, check item = .ok false) : items.filter (taken check) = [] := by
  refine filter_eq_nil_iff.mpr fun item listed => ?_
  rw [taken, refused item listed]
  nofun

private theorem not_stuck_of_stop {items : List DataEntry}
    (stops : ¬(Answered check (items.take (min num 256)) ∧
      count + ((items.take (min num 256)).filter (taken check)).length < num)) :
    ¬Stuck check num count items := by
  rintro ⟨before, after, rfl, answered, fewer, _, refused⟩
  have part : ∀ item ∈ after.take (min num 256 - before.length), check item = .ok false :=
      fun item listed =>
    refused item ((take_sublist_take_left (Nat.sub_le _ _)).subset listed)
  have least : ((before.take (min num 256)).filter (taken check)).length ≤
      (before.filter (taken check)).length :=
    ((take_sublist _ _).filter _).length_le
  rw [take_append] at stops
  refine stops ⟨fun item listed => ?_, ?_⟩
  · rcases mem_append.mp listed with first | second
    · exact answered item (mem_of_mem_take first)
    · exact ⟨false, part item second⟩
  · rw [filter_append, filter_taken_of_refused part, append_nil]
    omega

private theorem split_last_taken (some : page.filter (taken check) ≠ []) :
    ∃ before item after, page = before ++ item :: after ∧ taken check item = true ∧
      after.filter (taken check) = [] := by
  induction page with
  | nil => exact absurd rfl some
  | cons item rest ih =>
    by_cases later : rest.filter (taken check) = []
    · refine ⟨[], item, rest, rfl, ?_, later⟩
      by_contra refused
      rw [filter_cons_of_neg refused] at some
      exact some later
    · obtain ⟨before, last, after, rfl, kept, none⟩ := ih later
      exact ⟨item :: before, last, after, rfl, kept, none⟩

private theorem stuck_after {before after : List DataEntry}
    (answered : Answered check (before ++ [item])) (kept : taken check item = true)
    (near : before.length < min num 256) :
    Stuck check num count (before ++ item :: after) ↔
      Stuck check num (count + ((before ++ [item]).filter (taken check)).length) after := by
  constructor
  · rintro ⟨first, second, split, answers, fewer, some, refused⟩
    have joined : before ++ item :: after = (before ++ [item]) ++ after := by simp
    rw [joined] at split
    rcases append_eq_append_iff.mp split with ⟨middle, front, back⟩ | ⟨middle, front, back⟩
    · refine ⟨middle, second, back, fun other listed =>
        answers other (by rw [front]; exact mem_append_right _ listed),
        ?_, some, refused⟩
      rw [front, filter_append, length_append] at fewer
      omega
    · rcases eq_nil_or_concat middle with rfl | ⟨init, last, rfl⟩
      · rw [append_nil] at front
        subst front back
        exact ⟨[], _, rfl, nofun, by simpa using fewer, some, refused⟩
      · rw [concat_eq_append, ← append_assoc] at front
        obtain ⟨rfl, same⟩ := append_inj' front rfl
        obtain rfl : item = last := singleton_inj.mp same
        have found : item ∈ second.take (min num 256) := by
          rw [length_append] at near
          rw [back, concat_eq_append, append_assoc, take_append, mem_append]
          refine .inr ?_
          obtain ⟨more, remains⟩ : ∃ more, min num 256 - init.length = more + 1 :=
            ⟨min num 256 - init.length - 1, by omega⟩
          rw [remains, singleton_append, take_succ_cons]
          exact mem_cons_self
        rw [taken, refused item found] at kept
        cases kept
  · rintro ⟨first, second, rfl, answers, fewer, some, refused⟩
    refine ⟨before ++ item :: first, second, by simp, fun other listed => ?_, ?_, some, refused⟩
    · rcases mem_append.mp (show other ∈ (before ++ [item]) ++ first by simpa using listed) with
        inside | later
      · exact answered other inside
      · exact answers other later
    · have joined : before ++ item :: first = (before ++ [item]) ++ first := by simp
      rw [joined, filter_append, length_append]
      omega

variable {table : Table}

/-- Where the next round starts. -/
def restart (startIndex : Option Bytes32) (resp : List DataEntry) : Option Bytes32 :=
  match resp.getLast? with
  | some item => some item.index
  | none => startIndex

section

variable {num : ℕ} {resp : List DataEntry} (room : resp.length < num)

include room

theorem pageRounds_empty (empty : candidates table num startIndex = []) :
    pageRounds table check num (rounds + 1) startIndex resp = some (pure resp) := by
  rw [pageRounds, if_neg room.ne, PaginateDataStores_eq table startIndex (by omega), empty,
    take_nil, if_pos rfl]

theorem pageRounds_succ (nonempty : candidates table num startIndex ≠ []) :
    pageRounds table check num (rounds + 1) startIndex resp =
      match fill check num ((candidates table num startIndex).take (min num 256)) resp with
      | .error failure => some (.error failure)
      | .ok result =>
        if num ≤ result.length then some (pure result)
        else pageRounds table check num rounds (restart startIndex result) result := by
  have more : (candidates table num startIndex).take (min num 256) ≠ [] := by
    rw [Ne, take_eq_nil_iff, not_or]
    exact ⟨by omega, nonempty⟩
  rw [pageRounds, if_neg room.ne, PaginateDataStores_eq table startIndex (by omega)]
  exact if_neg more

private theorem pageRounds_stop (nonempty : candidates table num startIndex ≠ [])
    (stops : (∃ failure, fill check num ((candidates table num startIndex).take (min num 256))
      resp = .error failure) ∨ ∃ result,
      fill check num ((candidates table num startIndex).take (min num 256)) resp = .ok result ∧
      num ≤ result.length) :
    ∃ answer, pageRounds table check num 1 startIndex resp = some answer := by
  rw [pageRounds_succ room nonempty]
  rcases stops with ⟨failure, stopped⟩ | ⟨result, stopped, full⟩
  · rw [stopped]
    exact ⟨_, rfl⟩
  · rw [stopped]
    exact ⟨_, if_pos full⟩

theorem pageRounds_next (nonempty : candidates table num startIndex ≠ [])
    (filled : fill check num ((candidates table num startIndex).take (min num 256)) resp =
      .ok result)
    (fewer : result.length < num) :
    pageRounds table check num (rounds + 1) startIndex resp =
      pageRounds table check num rounds (restart startIndex result) result := by
  rw [pageRounds_succ room nonempty, filled]
  exact if_neg (by omega)

theorem pageRounds_loop (nonempty : candidates table num startIndex ≠ [])
    (filled : fill check num ((candidates table num startIndex).take (min num 256)) resp = .ok resp)
    (here : restart startIndex resp = startIndex) (rounds : ℕ) :
    pageRounds table check num rounds startIndex resp = none := by
  induction rounds with
  | zero => rfl
  | succ rounds ih => rw [pageRounds_next room nonempty filled room, here, ih]

end

private theorem exists_succ_rounds {table : Table}
    (step : ∀ rounds, pageRounds table check num (rounds + 1) startIndex resp =
      pageRounds table check num rounds startIndex' resp') :
    (∃ rounds answer, pageRounds table check num rounds startIndex resp = some answer) ↔
      ∃ rounds answer, pageRounds table check num rounds startIndex' resp' = some answer := by
  constructor
  · rintro ⟨rounds, answer, returned⟩
    cases rounds with
    | zero => cases returned
    | succ rounds => exact ⟨rounds, answer, by rw [← step, returned]⟩
  · rintro ⟨rounds, answer, returned⟩
    exact ⟨rounds + 1, answer, by rw [step, returned]⟩

theorem next_candidates {items : List DataEntry} (several : num ≠ 1)
    (place : ∃ passed, table.entries = passed ++ items)
    (some : (items.take (min num 256)).filter (taken check) ≠ []) (resp : List DataEntry)
    (startIndex : Option Bytes32) :
    ∃ before item rest, items = before ++ item :: rest ∧ before.length < min num 256 ∧
      taken check item = true ∧
      (items.take (min num 256)).filter (taken check) = (before ++ [item]).filter (taken check) ∧
      (∀ other ∈ before ++ [item], other ∈ items.take (min num 256)) ∧
      restart startIndex (resp ++ (before ++ [item]).filter (taken check)) =
        Option.some item.index ∧
      candidates table num (Option.some item.index) = rest ∧ ∃ passed,
        table.entries = passed ++ rest := by
  obtain ⟨before, item, after, split, kept, none⟩ := split_last_taken some
  have whole : items = before ++ item :: (after ++ items.drop (min num 256)) := by
    rw [← cons_append, ← append_assoc, ← split, take_append_drop]
  have page : before ++ item :: after = before ++ [item] ++ after := by simp
  have last : (resp ++ (before ++ [item]).filter (taken check)).getLast? = Option.some item := by
    rw [filter_append, filter_cons_of_pos kept, filter_nil, ← append_assoc, getLast?_concat]
  obtain ⟨passed, entries⟩ := place
  rw [whole, ← append_assoc] at entries
  refine ⟨before, item, after ++ items.drop (min num 256), whole, ?_, kept, ?_, fun other listed =>
    ?_, ?_, ?_, passed ++ before ++ [item], ?_⟩
  · have most := length_take_le (min num 256) items
    rw [split, length_append, length_cons] at most
    omega
  · rw [split, page, filter_append, none, append_nil]
  · rw [split, page]
    exact mem_append_left _ listed
  · rw [restart, last]
  · rw [candidates, if_neg several]
    exact SortedTable.after_append entries
  · rw [entries]
    simp

theorem restart_again (start : restart startIndex resp = some index) :
    restart (some index) resp = some index := by
  unfold restart at *
  split at start
  · exact start
  · rfl

theorem several_of_room (fewer : (resp ++ kept).length < num)
    (some : kept ≠ ([] : List DataEntry)) : num ≠ 1 := by
  rintro rfl
  have := length_pos_iff.mpr some
  rw [length_append] at fewer
  omega

private theorem rounds_end_iff (items : List DataEntry) (room : resp.length < num)
    (list : candidates table num startIndex = items)
    (place : ∃ passed, table.entries = passed ++ items)
    (here : restart startIndex resp = startIndex) :
    (∃ rounds answer, pageRounds table check num rounds startIndex resp = some answer) ↔
      ¬Stuck check num resp.length items := by
  induction size : items.length using Nat.strong_induction_on generalizing items startIndex
    resp with
  | _ size ih =>
    by_cases nonempty : items = []
    · subst nonempty
      refine iff_of_true ⟨1, _, pageRounds_empty room list⟩ ?_
      rintro ⟨before, after, split, _, _, some, _⟩
      exact some (append_eq_nil_iff.mp split.symm).2
    have some : candidates table num startIndex ≠ [] := by rwa [list]
    rcases @fill_cases check num (items.take (min num 256)) resp room with
      ⟨answered, fewer, filled⟩ | ⟨full, stops⟩
    · rw [← list] at filled
      by_cases refused : (items.take (min num 256)).filter (taken check) = []
      · rw [list, refused, append_nil, ← list] at filled
        refine iff_of_false (fun ⟨rounds, answer, returned⟩ => ?_) fun unstuck =>
          unstuck ⟨[], items, rfl, nofun, ?_, nonempty, ?_⟩
        · rw [pageRounds_loop room some filled here] at returned
          cases returned
        · simpa using room
        · intro item listed
          obtain ⟨kept, answer⟩ := answered item listed
          cases kept with
          | false => exact answer
          | true =>
            have mem := mem_filter.mpr ⟨listed, show taken check item = true by rw [taken, answer]⟩
            rw [refused] at mem
            exact absurd mem not_mem_nil
      · rw [← length_append] at fewer
        obtain ⟨before, item, rest, whole, near, kept, added, inside, start, next, remains⟩ :=
          next_candidates (several_of_room fewer refused) place refused resp startIndex
        rw [list, added, ← list] at filled
        rw [added] at fewer
        have step := fun rounds => @pageRounds_next _ _ _ _ room _ _ rounds some filled fewer
        rw [start] at step
        have less : rest.length < items.length := by
          simp only [whole, length_append, length_cons]
          omega
        rw [size] at less
        rw [exists_succ_rounds step, whole, stuck_after (fun other listed =>
          answered other (inside other listed)) kept near,
          ← length_append]
        exact ih _ less rest fewer next remains (restart_again start) rfl
    · rw [← list] at stops
      obtain ⟨answer, returned⟩ :=
        pageRounds_stop room some (stops.imp_right fun ⟨result, ok, full, _⟩ => ⟨result, ok, full⟩)
      exact iff_of_true ⟨1, answer, returned⟩ (not_stuck_of_stop full)

end Rounds

theorem candidates_suffix (table : Table) (num : ℕ) (startIndex : Option Bytes32) :
    ∃ passed, table.entries = passed ++ candidates table num startIndex := by
  unfold candidates
  split
  · exact ⟨_, (takeWhile_append_dropWhile).symm⟩
  · exact SortedTable.after_suffix _

/-- The call returns exactly if no page of refused items comes up before enough have been taken, and
no refused item stands at the end before that. -/
theorem paginate_returns_iff (s : State) (table : DataIndex.Table) (currentHeight : ℕ)
    (startIndex : Option Bytes32) (pos : 1 ≤ numItems) :
    (∃ answer, PaginateDataByOwner s table currentHeight numItems startIndex answer) ↔
      ¬Stuck (isListed s (nextHeight currentHeight)) numItems 0
        (DataIndex.candidates table numItems startIndex) := by
  unfold PaginateDataByOwner
  rw [exists_comm]
  exact rounds_end_iff _ pos rfl (candidates_suffix table numItems startIndex) rfl

def sampleTrie : UTXOTrie :=
  let added := do
    let current ← (UTXOTrie.empty.getCurrentTrie.Update BadgerTrie.sampleHash
      ([1, 2, 3, 4].map fun n => ⟨sampleKey n, 1⟩)).mapError ofTrie
    UTXOTrie.empty.updateRoots 2 current.root current
  match added with
  | .ok trie => trie
  | .error _ => .empty

def sampleState : State where
  trie := sampleTrie
  utxos id := if named : id ≠ 0 then
      some (.dataStore (sampleStore id named (if id = sampleKey 2 then 1 else 5)
        (by split <;> decide)))
    else none
  expIndex := .empty
  dataIndex := .empty
  valueIndex := .empty

def sampleEntry (n : ℕ) : DataEntry := ⟨sampleKey n, sampleKey n⟩

def sampleTable (ns : List ℕ) (sorted : (ns.map fun n => (sampleKey n).toNat).Pairwise (· < ·)) :
    DataIndex.Table where
  entries := ns.map sampleEntry
  sorted := by
    rw [pairwise_map] at sorted ⊢
    exact sorted

def fourStores : DataIndex.Table := sampleTable [1, 2, 3, 4] (by decide)

/-- At height 5001 the second of four stores has expired, so that two pages of the index give one of
the answer. -/
theorem paginate_returns_four :
    fourStores.entries.map (taken (isListed sampleState (nextHeight 5000))) =
      [true, false, true, true] ∧
      ∃ answer, PaginateDataByOwner sampleState fourStores 5000 2 none answer := by
  refine ⟨by decide +kernel, (paginate_returns_iff sampleState fourStores 5000 none (by decide)).mpr
    ?_⟩
  rintro ⟨before, after, split, _, _, some, refused⟩
  have listed : after ∈ (candidates fourStores 2 none).tails :=
    (mem_tails _ _).mpr ⟨before, split.symm⟩
  have live : ∀ rest ∈ (candidates fourStores 2 none).tails, rest ≠ [] →
      ∃ item ∈ rest.take (min 2 256), isListed sampleState (nextHeight 5000) item = .ok true := by
    decide +kernel
  obtain ⟨item, mem, answer⟩ := live after listed some
  cases answer.symm.trans (refused item mem)

def expiredTable : DataIndex.Table := sampleTable [2] (by decide)

/-- All that the owner has expired: the call does not return. -/
theorem expired_store_loops :
    ¬∃ answer, PaginateDataByOwner sampleState expiredTable 5000 2 none answer := by
  rintro ⟨answer, rounds, returned⟩
  have filled : fill (isListed sampleState (nextHeight 5000)) 2
      ((DataIndex.candidates expiredTable 2 none).take (min 2 256)) [] = .ok [] := by decide +kernel
  rw [pageRounds_loop (by decide) (by decide) filled rfl] at returned
  cases returned

section Client

variable {check : DataEntry → Except Fault Bool}

private theorem fill_eq_take (room : resp.length < num)
    (filled : fill check num page resp = .ok result) :
    result = resp ++ (page.filter (taken check)).take (num - resp.length) := by
  rcases @fill_cases check num page resp room with
    ⟨_, fewer, all⟩ | ⟨_, ⟨failure, failed⟩ | ⟨_, stopped, _, cut⟩⟩
  · rw [take_of_length_le (by omega)]
    exact Except.ok.inj (filled.symm.trans all)
  · cases filled.symm.trans failed
  · exact (Except.ok.inj (filled.symm.trans stopped)).trans cut

private theorem pageRounds_eq_take (room : resp.length < num)
    (list : candidates table num startIndex = items)
    (place : ∃ passed, table.entries = passed ++ items)
    (here : restart startIndex resp = startIndex)
    (returned : pageRounds table check num rounds startIndex resp = some (.ok page)) :
    page = resp ++ (items.filter (taken check)).take (num - resp.length) := by
  induction rounds generalizing startIndex resp items with
  | zero => cases returned
  | succ rounds ih =>
    by_cases nonempty : items = []
    · subst nonempty
      rw [pageRounds_empty room list] at returned
      cases returned
      rw [filter_nil, take_nil, append_nil]
    rw [pageRounds_succ room (by rwa [list]), list] at returned
    cases filled : fill check num (items.take (min num 256)) resp with
    | error failure =>
      rw [filled] at returned
      cases returned
    | ok result =>
      rw [filled] at returned
      replace returned : (if num ≤ result.length then some (pure result)
        else pageRounds table check num rounds (restart startIndex result) result) =
          some (Except.ok page) := returned
      have added := fill_eq_take room filled
      have parts : items.filter (taken check) = (items.take (min num 256)).filter (taken check) ++
          (items.drop (min num 256)).filter (taken check) := by
        rw [← filter_append, take_append_drop]
      generalize kept_eq : (items.take (min num 256)).filter (taken check) = kept at added parts
      by_cases full : num ≤ result.length
      · rw [if_pos full] at returned
        cases returned
        have enough : num - resp.length ≤ kept.length := by
          rw [added, length_append, length_take] at full
          omega
        rw [parts, take_append_of_le_length enough]
        exact added
      · have short : kept.length ≤ num - resp.length := by
          rw [added, length_append, length_take] at full
          omega
        rw [take_of_length_le short] at added
        subst added
        rw [if_neg full] at returned
        by_cases none : kept = []
        · subst none
          rw [append_nil, here] at returned
          exact ih room list place here returned
        · have fewer : (resp ++ kept).length < num := by omega
          obtain ⟨before, item, rest, whole, _, _, same, _, start, next, remains⟩ :=
            next_candidates (several_of_room fewer none) place (by rwa [kept_eq]) resp startIndex
          rw [kept_eq] at same
          rw [← same] at start
          rw [start] at returned
          have joined : before ++ item :: rest = before ++ [item] ++ rest := by simp
          have later := ih fewer next remains (restart_again start) returned
          rw [later, whole, joined, filter_append, ← same, take_append, take_of_length_le short,
            append_assoc, length_append, Nat.sub_add_eq]

end Client

def isLive (s : State) (height : ℕ) : DataEntry → Bool := taken (isListed s height)

section Client

variable (s : State) (table : Table) (currentHeight numItems : ℕ)

inductive Visits : Option Bytes32 → List (List DataEntry) → Prop
  | last (returned : PaginateDataByOwner s table currentHeight numItems startIndex (.ok [])) :
      Visits startIndex [[]]
  | next (returned : PaginateDataByOwner s table currentHeight numItems startIndex (.ok page))
      (last : page.getLast? = some item) (rest : Visits (some item.index) pages) :
        Visits startIndex (page :: pages)

/-- The start indexes such a client comes to. -/
inductive Asked : Option Bytes32 → Prop
  | first : Asked none
  | next (asked : Asked startIndex) (returned : PaginateDataByOwner s table currentHeight numItems
      startIndex (.ok page))
      (last : page.getLast? = some item) : Asked (some item.index)

variable {s table currentHeight numItems}

theorem page_eq_take (pos : 1 ≤ numItems)
    (returned : PaginateDataByOwner s table currentHeight numItems startIndex (.ok page)) :
    page = ((candidates table numItems startIndex).filter
      (isLive s (nextHeight currentHeight))).take numItems := by
  obtain ⟨rounds, returned⟩ := returned
  exact pageRounds_eq_take pos rfl (candidates_suffix table numItems startIndex) rfl returned

/-- What is listed after a start index. -/
def listedAfter (s : State) (table : DataIndex.Table) (currentHeight : ℕ)
    (startIndex : Option Bytes32) : List DataEntry :=
  (table.restrict (isLive s (nextHeight currentHeight))).after (startIndex.getD 0).toNat

section Several

variable (several : 2 ≤ numItems)
include several

section

variable (returned : PaginateDataByOwner s table currentHeight numItems startIndex (.ok page))

include returned

theorem page_eq_listed :
    page = (listedAfter s table currentHeight startIndex).take numItems := by
  have page_eq := page_eq_take (by omega) returned
  rw [candidates, if_neg (by omega)] at page_eq
  rw [listedAfter, SortedTable.after_restrict]
  exact page_eq

theorem listedAfter_next (last : page.getLast? = some item) :
    listedAfter s table currentHeight startIndex = page ++ listedAfter s table currentHeight
      (some item.index) := by
  have page_eq := page_eq_listed several returned
  have split : listedAfter s table currentHeight startIndex =
      page ++ (listedAfter s table currentHeight startIndex).drop numItems := by
    rw [page_eq, take_append_drop]
  have rest : listedAfter s table currentHeight (some item.index) =
      (listedAfter s table currentHeight startIndex).drop numItems :=
    SortedTable.after_last split last
  rw [rest]
  exact split

end

private theorem listedAfter_empty
    (returned : PaginateDataByOwner s table currentHeight numItems startIndex (.ok [])) :
    listedAfter s table currentHeight startIndex = [] := by
  have none := page_eq_listed several returned
  rcases take_eq_nil_iff.mp none.symm with zero | empty
  · omega
  · exact empty

theorem Visits.flatten (visits : Visits s table currentHeight numItems startIndex pages) :
    pages.flatten = listedAfter s table currentHeight startIndex := by
  induction visits with
  | last returned => exact (listedAfter_empty several returned).symm
  | next returned last _ ih => rw [flatten_cons, ih, listedAfter_next several returned last]

private theorem exists_visits
    (returns : ∀ startIndex, Asked s table currentHeight numItems startIndex → ∃ page,
      PaginateDataByOwner s table currentHeight numItems startIndex (.ok page))
    (asked : Asked s table currentHeight numItems startIndex) :
    ∃ pages, Visits s table currentHeight numItems startIndex pages := by
  induction size :
    (listedAfter s table currentHeight startIndex).length using Nat.strong_induction_on
    generalizing startIndex with
  | _ size ih =>
    obtain ⟨page, returned⟩ := returns startIndex asked
    cases last : page.getLast? with
    | none =>
      obtain rfl := getLast?_eq_none_iff.mp last
      exact ⟨[[]], .last returned⟩
    | some item =>
      have some : page ≠ [] := by
        rintro rfl
        cases last
      have less := congrArg length (listedAfter_next several returned last)
      have := length_pos_iff.mpr some
      rw [length_append] at less
      obtain ⟨pages, visits⟩ := ih _ (by omega) (asked.next returned last) rfl
      exact ⟨page :: pages, .next returned last visits⟩

end Several

private theorem page_of_one (mem : item ∈ table.entries)
    (live : isLive s (nextHeight currentHeight) item = true)
    (returned : PaginateDataByOwner s table currentHeight 1 (some item.index) (.ok page)) :
    page = [item] := by
  have page_eq := page_eq_take le_rfl returned
  have seek : table.seek item.index.toNat = item :: table.after item.index.toNat :=
    SortedTable.seek_of_mem mem
  rw [candidates, if_pos rfl, Option.getD_some, seek, filter_cons_of_pos live] at page_eq
  exact page_eq

private theorem not_visits_of_one (mem : item ∈ table.entries)
    (live : isLive s (nextHeight currentHeight) item = true) :
    ¬Visits s table currentHeight 1 (some item.index) pages := by
  intro visits
  generalize from_item : some item.index = startIndex at visits
  induction visits with
  | last returned =>
    subst from_item
    cases page_of_one mem live returned
  | next returned last _ ih =>
    subst from_item
    cases page_of_one mem live returned
    exact ih (congrArg (fun other : DataEntry => some other.index) (Option.some.inj last))

private theorem first_page_of_one
    (returned : PaginateDataByOwner s table currentHeight 1 none (.ok page)) :
    page = (table.entries.filter (isLive s (nextHeight currentHeight))).take 1 := by
  have page_eq := page_eq_take le_rfl returned
  have all : table.seek 0 = table.entries := by
    rw [SortedTable.seek_eq_filter]
    exact filter_eq_self.mpr fun _ _ => by simp
  rw [← all]
  exact page_eq

theorem visits_one_iff
    (returns : ∃ page, PaginateDataByOwner s table currentHeight 1 none (.ok page)) :
    Visits s table currentHeight 1 none pages ↔
      pages = [[]] ∧ table.entries.filter (isLive s (nextHeight currentHeight)) = [] := by
  constructor
  · intro visits
    cases visits with
    | last returned =>
      refine ⟨rfl, ?_⟩
      rcases take_eq_nil_iff.mp (first_page_of_one returned).symm with zero | empty
      · cases zero
      · exact empty
    | next returned last rest =>
      have listed := mem_of_mem_take (first_page_of_one returned ▸ mem_of_getLast? last)
      obtain ⟨mem, live⟩ := mem_filter.mp listed
      exact absurd rest (not_visits_of_one mem live)
  · rintro ⟨rfl, empty⟩
    obtain ⟨page, returned⟩ := returns
    have page_eq := first_page_of_one returned
    rw [empty] at page_eq
    subst page_eq
    exact .last returned

private theorem filter_eq_filter_iff {entries : List DataEntry} :
    entries.filter p = entries.filter q ↔ ∀ entry ∈ entries, p entry = q entry := by
  refine ⟨fun same entry mem => ?_, filter_congr⟩
  have both := congrArg (entry ∈ ·) same
  simp only [mem_filter, mem, true_and, eq_iff_iff] at both
  exact Bool.eq_iff_iff.mpr both

/-- Each record is under its own index. -/
def Recorded (s : State) (table : DataIndex.Table) : Prop :=
  ∀ entry ∈ table.entries, ∀ ds, s.utxos entry.utxoID = some (.dataStore ds) →
    ds.dsPreImage.index = entry.index

theorem Recorded.of_indexed (indexed : Indexed env s live)
    (lists : ∀ entry ∈ table.entries, s.dataIndex.table (owner, entry.index) = some entry.utxoID) :
    Recorded s table := by
  intro entry mem ds record
  obtain ⟨id, ref, found, key, value⟩ := (indexed.data.table _ _).mp (lists entry mem)
  obtain ⟨utxo, present, filed⟩ := Option.bind_eq_some_iff.mp found
  obtain rfl : id = entry.utxoID := value
  obtain rfl : utxo = .dataStore ds :=
    Option.some.inj ((indexed.records _ _ present).symm.trans record)
  obtain rfl : (ds.dsPreImage.owner, ds.dsPreImage.index) = ref := Option.some.inj filed
  exact congrArg Prod.snd key

theorem Recorded.index_ne_zero {entry : DataEntry} (recorded : Recorded s table)
    (mem : entry ∈ table.entries) (live : isLive s height entry = true) : entry.index ≠ 0 := by
  cases record : s.utxos entry.utxoID with
  | none => simp [isLive, taken, isListed, record, pure, Except.pure] at live
  | some utxo =>
    cases utxo with
    | valueStore => simp [isLive, taken, isListed, record, pure, Except.pure] at live
    | dataStore ds =>
      rw [← recorded entry mem ds record]
      exact ds.index_ne_zero

theorem Recorded.listedAfter_none (recorded : Recorded s table) :
    listedAfter s table currentHeight none =
      table.entries.filter (isLive s (nextHeight currentHeight)) := by
  rw [listedAfter, SortedTable.after_restrict, SortedTable.after, filter_filter]
  refine filter_congr fun entry mem => Bool.eq_iff_iff.mpr ?_
  rw [Bool.and_eq_true, decide_eq_true_iff, and_iff_left_iff_imp]
  intro live
  refine Nat.pos_of_ne_zero fun zero => recorded.index_ne_zero mem live ?_
  exact BitVec.eq_of_toNat_eq zero

/-- The pages list what is live at a height, each store once and in order, exactly if they have room
for more than one item, or there is none; and the stores live at that height are those the code
lists. -/
theorem pages_list_iff (pos : 1 ≤ numItems) (recorded : Recorded s table)
    (returns : ∀ startIndex, Asked s table currentHeight numItems startIndex → ∃ page,
      PaginateDataByOwner s table currentHeight numItems startIndex (.ok page))
    (height : ℕ) :
    (∃ pages, Visits s table currentHeight numItems none pages ∧
        pages.flatten = table.entries.filter (isLive s height)) ↔
      (2 ≤ numItems ∨ table.entries.filter (isLive s (nextHeight currentHeight)) = []) ∧
        ∀ entry ∈ table.entries, isLive s height entry = isLive s (nextHeight currentHeight)
          entry := by
  rw [← filter_eq_filter_iff]
  by_cases several : 2 ≤ numItems
  · rw [and_iff_right (.inl several), ← recorded.listedAfter_none]
    constructor
    · rintro ⟨pages, visits, flat⟩
      rw [← visits.flatten several, flat]
    · intro same
      obtain ⟨pages, visits⟩ := exists_visits several returns .first
      exact ⟨pages, visits, by rw [visits.flatten several, same]⟩
  · obtain rfl : numItems = 1 := by omega
    simp only [visits_one_iff (returns none .first)]
    constructor
    · rintro ⟨pages, ⟨rfl, empty⟩, flat⟩
      exact ⟨.inr empty, flat.symm.trans empty.symm⟩
    · rintro ⟨empty, same⟩
      replace empty := empty.resolve_left several
      exact ⟨[[]], ⟨rfl, empty⟩, (same.trans empty).symm⟩

theorem Asked.mem (pos : 1 ≤ numItems) (asked : Asked s table currentHeight numItems startIndex) :
    startIndex ∈ none :: table.entries.map fun entry => some entry.index := by
  cases asked with
  | first => exact mem_cons_self
  | @next start page item _ returned last =>
    have listed := mem_of_getLast? last
    rw [page_eq_take pos returned] at listed
    obtain ⟨passed, entries⟩ := candidates_suffix table numItems start
    refine mem_cons_of_mem _ (mem_map_of_mem ?_)
    rw [entries]
    exact mem_append_right _ (mem_filter.mp (mem_of_mem_take listed)).1

end Client

theorem recorded_sampleTable (ns : List ℕ) (sorted) :
    Recorded sampleState (sampleTable ns sorted) := by
  intro entry mem ds record
  obtain ⟨n, _, rfl⟩ := mem_map.mp mem
  simp only [sampleState] at record
  split at record
  · cases record
    rfl
  · cases record

/-- Two pages with stores, and an empty one. -/
theorem pages_list_four : ∃ pages, Visits sampleState fourStores 5000 2 none pages ∧
    pages.flatten = [1, 3, 4].map sampleEntry := by
  have live : fourStores.entries.filter (isLive sampleState (nextHeight 5000)) =
      [1, 3, 4].map sampleEntry := by
    decide +kernel
  have returns : (none :: fourStores.entries.map fun entry => some entry.index).all
      (fun startIndex =>
      (pageRounds fourStores (isListed sampleState (nextHeight 5000)) 2 2 startIndex []).map
        Except.isOk == some true) = true := by
    decide +kernel
  rw [← live]
  refine (pages_list_iff (by decide) (recorded_sampleTable _ _) (fun startIndex asked => ?_) _).mpr
    ⟨.inl le_rfl, fun _ _ => rfl⟩
  have answered := eq_of_beq (all_eq_true.mp returns _ (asked.mem (by decide)))
  obtain ⟨answer, returned, ok⟩ := Option.map_eq_some_iff.mp answered
  cases answer with
  | error => cases ok
  | ok page => exact ⟨page, 2, returned⟩

def oneStore : DataIndex.Table := sampleTable [1] (by decide)

/-- With pages of one item the client gets the first store again and again. -/
theorem first_store_repeats : Recorded sampleState oneStore ∧
    (∀ height ∈ [5000, nextHeight 5000], isLive sampleState height (sampleEntry 1) = true) ∧
    (∀ startIndex, Asked sampleState oneStore 5000 1 startIndex →
      PaginateDataByOwner sampleState oneStore 5000 1 startIndex (.ok [sampleEntry 1])) ∧
    ¬∃ pages, Visits sampleState oneStore 5000 1 none pages := by
  have live : ∀ height ∈ [5000, nextHeight 5000], isLive sampleState height (sampleEntry 1) =
      true := by
    decide +kernel
  have first : pageRounds oneStore (isListed sampleState (nextHeight 5000)) 1 1 none [] =
      some (.ok [sampleEntry 1]) := by
    decide +kernel
  refine ⟨recorded_sampleTable _ _, live, fun startIndex asked => ?_, ?_⟩
  · rcases mem_cons.mp (asked.mem le_rfl) with rfl | again
    · exact ⟨1, first⟩
    · obtain rfl := mem_singleton.mp again
      exact ⟨1, by decide +kernel⟩
  rintro ⟨pages, visits⟩
  have none := ((visits_one_iff ⟨_, 1, first⟩).mp visits).2
  rw [filter_eq_nil_iff] at none
  exact none (sampleEntry 1) (mem_singleton.mpr rfl) (live _ (mem_cons_of_mem _ mem_cons_self))

end UTXOHandler

end AliceNet.Application
