import AliceNet.Library.LinkedTable
import AliceNet.Bridge.Dynamics

/-!
Runs of the dynamics contract, against the schedule of changes that they accepted.
-/

namespace AliceNet.Bridge.Dynamics

open Outcome LinkedTable Function
open DoublyLinkedList (createNode linkNext setHead setNode setTail)
open List

abbrev Schedule := List (ℕ × DynamicValues)

/-- The change that counts after another one was looked at. -/
def supersede (best : Option (ℕ × DynamicValues)) (change : ℕ × DynamicValues) :
    Option (ℕ × DynamicValues) :=
  match best with
  | some held => if held.1 ≤ change.1 then some change else some held
  | none => some change

def inForce (schedule : Schedule) (epoch : ℕ) : Option DynamicValues :=
  ((schedule.filter fun change => change.1 ≤ epoch).foldl supersede none).map Prod.snd

def Storage.blank (code : Address → Bytes) : Storage :=
  ⟨false, ⟨0, 0, fun _ => ⟨0, 0, 0, 0⟩⟩, ⟨0, 0⟩, ⟨0, 0, 0, 0, 0⟩, code⟩

/-- Transactions that succeed, with the epoch and the schedule. Every snapshot tells its epoch, and
no change is for the current one. -/
inductive Run (contract : Contract) : Storage → (epoch : ℕ) → Schedule → Prop
  | initializeStorage (bound : epoch < 2 ^ 32) (fresh : code msg.created = [])
      (ran : initializeStorage contract (.blank code) msg = .ok s) :
        Run contract s epoch [(1, initialValues)]
  | changeDynamicValues (run : Run contract s epoch schedule) (current : msg.getEpoch = epoch)
      (fresh : s.code msg.created = [])
      (ran : changeDynamicValues contract s msg relativeExecutionEpoch newValue = .ok s') :
      Run contract s' epoch (schedule ++ [(relativeExecutionEpoch + epoch, newValue)])
  | updateHead (run : Run contract s epoch schedule) (bound : epoch + 1 < 2 ^ 32)
      (ran : updateHead contract s msg (epoch + 1) = .ok s') : Run contract s' (epoch + 1) schedule
  | setConfiguration (run : Run contract s epoch schedule) (minimum : 1 ≤
      newConfig.minEpochsBetweenUpdates)
      (ran : setConfiguration contract s msg newConfig = .ok s') : Run contract s' epoch schedule
  | updateAliceNetNodeVersion (run : Run contract s epoch schedule)
      (ran : updateAliceNetNodeVersion contract s msg relativeUpdateEpoch majorVersion minorVersion
        patch binaryHash = .ok s') : Run contract s' epoch schedule
  | deployStorage (run : Run contract s epoch schedule) (fresh : s.code msg.created = [])
      (ran : deployStorage s msg data = .ok (s', addr)) : Run contract s' epoch schedule

def Storage.previousEpoch (s : Storage) : ℕ :=
  let previous := (s.dynamicValues.nodes s.dynamicValues.head).prev
  if previous = 0 then s.dynamicValues.head else previous

/-- The epoch of the node after the head, or zero if there is none. -/
def Storage.nextEpoch (s : Storage) : ℕ :=
  (s.dynamicValues.nodes s.dynamicValues.head).next

structure Timeline (s : Storage) (epoch : ℕ) (schedule : Schedule) : Prop where
  increasing : (schedule.map Prod.fst).Pairwise (· < ·)
  linked : Linked (fun e => (s.dynamicValues.nodes e).next) (fun e =>
    (s.dynamicValues.nodes e).prev) 0 0 (schedule.map Prod.fst)
  tail : (schedule.map Prod.fst).getLast? = some s.dynamicValues.tail
  head : s.dynamicValues.head ∈ schedule.map Prod.fst
  greatest : 1 ≤ epoch → s.dynamicValues.head ≤ epoch ∧
    ∀ other ∈ schedule.map Prod.fst, other ≤ epoch → other ≤ s.dynamicValues.head
  latest : 1 ≤ epoch → ∃ value, getLatestDynamicValues s = .ok value ∧ inForce schedule epoch =
    some value
  previous : ∀ e, s.previousEpoch ≤ e → s.nextEpoch = 0 ∨ e < s.nextEpoch →
    ∃ value, getPreviousDynamicValues s e = .ok value ∧ inForce schedule e = some value

private theorem decodeFields_encodePacked (fields : List (ℕ × ℕ)) :
    decodeFields (fields.map Prod.fst) (encodePacked fields) =
      fields.map fun field => field.2 % 256 ^ field.1 := by
  induction fields with
  | nil => rfl
  | cons field rest ih =>
    obtain ⟨size, n⟩ := field
    have front : (encodePacked ((size, n) :: rest)).take size = Bytes.bigEndian size n := by
      simp [encodePacked]
    have back : (encodePacked ((size, n) :: rest)).drop size = encodePacked rest := by
      simp [encodePacked]
    simp only [map_cons, decodeFields, front, back, Bytes.value_bigEndian, ih]

theorem length_encodeDynamicValues (value : DynamicValues) :
    (encodeDynamicValues value).length = 48 := by
  simp [encodeDynamicValues, encodePacked]

private theorem ofNat_mod (width : 256 ^ size = 2 ^ w) :
    BitVec.ofNat w (x.toNat % 256 ^ size) = x := by
  apply BitVec.eq_of_toNat_eq
  rw [width, Nat.mod_eq_of_lt x.isLt, BitVec.ofNat_toNat, BitVec.setWidth_eq]

private theorem decodeDynamicValues_of_code (code : s.code addr = encodeDynamicValues value) :
    decodeDynamicValues s addr = .ok value := by
  have fields : decodeFields [1, 3, 4, 4, 4, 8, 8, 16] (encodeDynamicValues value) = _ :=
    decodeFields_encodePacked [(1, value.encoderVersion.encode), (3, value.proposalTimeout.toNat),
      (4, value.preVoteTimeout.toNat), (4, value.preCommitTimeout.toNat),
        (4, value.maxBlockSize.toNat),
      (8, value.dataStoreFee.toNat), (8, value.valueStoreFee.toNat),
        (16, value.minScaledTransactionFee.toNat)]
  have version : Version.decode (value.encoderVersion.encode % 256 ^ 1) =
      .ok value.encoderVersion := by
    cases value.encoderVersion
    rfl
  have length := length_encodeDynamicValues value
  rw [decodeDynamicValues, code, length, fields]
  simp only [map_cons, map_nil, version, ofNat_mod (show 256 ^ 3 = 2 ^ 24 by norm_num),
    ofNat_mod (show 256 ^ 4 = 2 ^ 32 by norm_num), ofNat_mod (show 256 ^ 8 = 2 ^ 64 by norm_num),
    ofNat_mod (show 256 ^ 16 = 2 ^ 128 by norm_num)]
  rfl

private theorem foldl_supersede_mem (changes : Schedule) (best : Option (ℕ × DynamicValues)) :
    changes.foldl supersede best = best ∨ ∃ change ∈ changes, changes.foldl supersede best =
      some change := by
  induction changes generalizing best with
  | nil => exact .inl rfl
  | cons change rest ih =>
    have first : supersede best change = best ∨ supersede best change = some change := by
      cases best with
      | none => exact .inr rfl
      | some held =>
        simp only [supersede]
        split
        · exact .inr rfl
        · exact .inl rfl
    rw [foldl_cons]
    rcases ih (supersede best change) with same | ⟨other, mem, found⟩
    · rw [same]
      exact first.imp_right fun taken => ⟨change, by simp, taken⟩
    · exact .inr ⟨other, mem_cons_of_mem _ mem, found⟩

theorem inForce_eq {earlier later : Schedule}
    (increasing : ((earlier ++ change :: later).map Prod.fst).Pairwise (· < ·))
    (reached : change.1 ≤ e) (ahead : ∀ other ∈ later, e < other.1) :
    inForce (earlier ++ change :: later) e = some change.2 := by
  have before : ∀ other ∈ earlier, other.1 < change.1 := by
    rw [pairwise_map, pairwise_append] at increasing
    exact fun other mem => increasing.2.2 other mem change (by simp)
  have kept : (earlier ++ change :: later).filter (fun other => other.1 ≤ e) =
      earlier ++ [change] := by
    rw [filter_append, filter_cons_of_pos (by simpa using reached)]
    congr 1
    · exact filter_eq_self.mpr fun other mem => by simpa using (before other mem).le.trans reached
    · rw [filter_eq_nil_iff.mpr fun other mem => by simpa using ahead other mem]
  rw [inForce, kept, foldl_append, foldl_cons, foldl_nil]
  rcases foldl_supersede_mem earlier none with none | ⟨other, mem, found⟩
  · rw [none]
    rfl
  · rw [found, supersede, if_pos (before other mem).le]
    rfl

structure Position (s : Storage) (epoch : ℕ) (change : ℕ × DynamicValues) (later : Schedule) :
  Prop where
  head : s.dynamicValues.head = change.1
  reached : change.1 ≤ max 1 epoch
  ahead : ∀ other ∈ later, max 1 epoch < other.1

structure Scheduled (s : Storage) (epoch : ℕ) (schedule : Schedule) : Prop where
  small : epoch < 2 ^ 32
  minimum : 1 ≤ s.configuration.minEpochsBetweenUpdates
  bounds : ∀ change ∈ schedule, 1 ≤ change.1 ∧ change.1 < 2 ^ 32
  increasing : (schedule.map Prod.fst).Pairwise (· < ·)
  linked : Linked (fun e => (s.dynamicValues.nodes e).next) (fun e =>
    (s.dynamicValues.nodes e).prev) 0 0 (schedule.map Prod.fst)
  tail : (schedule.map Prod.fst).getLast? = some s.dynamicValues.tail
  values : ∀ change ∈ schedule, (s.dynamicValues.nodes change.1).data ≠ 0 ∧
    s.code (s.dynamicValues.nodes change.1).data = encodeDynamicValues change.2
  position : ∃ earlier change later, schedule = earlier ++ change :: later ∧
    Position s epoch change later

section

variable {contract : Contract} {s s' : Storage} {schedule : Schedule}

section

variable (scheduled : Scheduled s epoch schedule)

include scheduled

theorem Scheduled.congr (list : s'.dynamicValues = s.dynamicValues)
    (minimum : 1 ≤ s'.configuration.minEpochsBetweenUpdates)
    (code : ∀ addr, s.code addr ≠ [] → s'.code addr = s.code addr) :
    Scheduled s' epoch schedule where
  small := scheduled.small
  minimum := minimum
  bounds := scheduled.bounds
  increasing := scheduled.increasing
  linked := list ▸ scheduled.linked
  tail := list ▸ scheduled.tail
  values := by
    intro change mem
    obtain ⟨nonzero, held⟩ := scheduled.values change mem
    rw [list]
    refine ⟨nonzero, (code _ ?_).trans held⟩
    rw [held, ← length_pos_iff, length_encodeDynamicValues]
    norm_num
  position := by
    obtain ⟨earlier, change, later, split, head, reached, ahead⟩ := scheduled.position
    exact ⟨earlier, change, later, split, list ▸ head, reached, ahead⟩

theorem Scheduled.last : ∃ front, schedule.map Prod.fst = front ++ [s.dynamicValues.tail] :=
  getLast?_eq_some_iff.mp scheduled.tail

theorem Scheduled.le_tail (mem : e ∈ schedule.map Prod.fst) : e ≤ s.dynamicValues.tail := by
  obtain ⟨front, split⟩ := scheduled.last
  have increasing := scheduled.increasing
  rw [split] at mem increasing
  rcases mem_append.mp mem with first | last
  · exact ((pairwise_append.mp increasing).2.2 e first _ (by simp)).le
  · exact (mem_singleton.mp last).le

theorem Scheduled.bound (mem : e ∈ schedule.map Prod.fst) : 1 ≤ e ∧ e < 2 ^ 32 := by
  obtain ⟨change, found, rfl⟩ := mem_map.mp mem
  exact scheduled.bounds change found

theorem Scheduled.tail_mem : s.dynamicValues.tail ∈ schedule.map Prod.fst := by
  obtain ⟨front, split⟩ := scheduled.last
  simp [split]

theorem Scheduled.head_mem : s.dynamicValues.head ∈ schedule.map Prod.fst := by
  obtain ⟨earlier, change, later, rfl, position⟩ := scheduled.position
  simp [position.head]

end

def withNode (list : DoublyLinkedList) (epoch : ℕ) (data : Address) : DoublyLinkedList where
  head := list.head
  tail := epoch
  nodes := update (update list.nodes epoch ⟨epoch, 0, list.tail, data⟩) list.tail
    { list.nodes list.tail with next := epoch }

private theorem addNode_ok (headBound : list.head < 2 ^ 32) (tailBound : list.tail < 2 ^ 32)
    (started : list.head ≠ 0) (ran : list.addNode e data = .ok list') :
    list.tail < e ∧ data ≠ 0 ∧ list' = withNode list e data := by
  simp only [DoublyLinkedList.addNode, Nat.mod_eq_of_lt headBound, Nat.mod_eq_of_lt tailBound,
    started, if_false, ok_iff', setTail] at ran
  obtain ⟨after, _, nonzero, _, rfl⟩ := ran
  refine ⟨after, nonzero, ?_⟩
  simp only [withNode, linkNext, setNode, createNode, update_of_ne after.ne]

private theorem withNode_next (after : list.tail < e) (data : Address) :
    (fun e' => ((withNode list e data).nodes e').next) =
      update (update (fun e' => (list.nodes e').next) e 0) list.tail e := by
  funext e'
  by_cases last : e' = list.tail
  · subst last
    simp [withNode]
  · rcases eq_or_ne e' e with rfl | other <;> simp_all [withNode]

private theorem withNode_prev (after : list.tail < e) (data : Address) :
    (fun e' => ((withNode list e data).nodes e').prev) =
      update (fun e' => (list.nodes e').prev) e list.tail := by
  funext e'
  by_cases last : e' = list.tail
  · subst last
    simp [withNode, update_of_ne after.ne]
  · rcases eq_or_ne e' e with rfl | other <;> simp_all [withNode]

private theorem withNode_data (other : e' ≠ e) (data : Address) :
    ((withNode list e data).nodes e').data = (list.nodes e').data := by
  by_cases last : e' = list.tail
  · subst last
    simp [withNode]
  · simp [withNode, last, other]

private theorem withNode_data_self (after : list.tail < e) (data : Address) :
    ((withNode list e data).nodes e).data = data := by
  simp [withNode, after.ne']

theorem deployStorage_ok (ran : deployStorage s msg data = .ok (s', addr)) :
    msg.created ≠ 0 ∧ addr = msg.created ∧
      s' = { s with code := update s.code msg.created data } := by
  simp only [deployStorage, ok_iff'] at ran
  exact ⟨ran.1, ran.2.2.symm, ran.2.1.symm⟩

theorem code_update (fresh : s.code created = []) (used : s.code addr ≠ []) (data : Bytes) :
    update s.code created data addr = s.code addr := by
  refine update_of_ne ?_ _ _
  rintro rfl
  exact used fresh

private theorem encodeDynamicValues_ne : encodeDynamicValues value ≠ [] := by
  rw [← length_pos_iff, length_encodeDynamicValues]
  norm_num

theorem Scheduled.addNode (scheduled : Scheduled s epoch schedule) (fresh : s.code msg.created = [])
    (later : epoch < e) (bound : e < 2 ^ 32) (ran : addNode s msg e value = .ok s') :
    Scheduled s' epoch (schedule ++ [(e, value)]) := by
  simp only [Dynamics.addNode, ok_iff'] at ran
  obtain ⟨deployed, addr, created, list, added, rfl⟩ := ran
  obtain ⟨nonzero, rfl, rfl⟩ := deployStorage_ok created
  have headBound := scheduled.bound scheduled.head_mem
  have tailBound := scheduled.bound scheduled.tail_mem
  obtain ⟨after, _, rfl⟩ := addNode_ok headBound.2 tailBound.2 (by omega) added
  obtain ⟨front, split⟩ := scheduled.last
  have ordered : ∀ e' ∈ schedule.map Prod.fst, e' < e := fun e' mem =>
    (scheduled.le_tail mem).trans_lt after
  refine ⟨scheduled.small, scheduled.minimum, ?_, ?_, ?_, ?_, ?_, ?_⟩
  · intro change mem
    rcases mem_append.mp mem with old | new
    · exact scheduled.bounds change old
    · rw [mem_singleton.mp new]
      exact ⟨by simp only; omega, bound⟩
  · rw [map_append, pairwise_append]
    refine ⟨scheduled.increasing, by simp, fun e' mem e'' last => ?_⟩
    obtain rfl : e'' = e := by simpa using last
    exact ordered e' mem
  · have linked := scheduled.linked
    have distinct : (schedule.map Prod.fst).Nodup := scheduled.increasing.imp fun lt => lt.ne
    have absent : e ∉ schedule.map Prod.fst := fun mem => lt_irrefl e (ordered e mem)
    rw [split] at linked distinct absent
    simp only [withNode_next after, withNode_prev after, map_append, split, map_cons, map_nil]
    simpa using linked.append distinct absent
  · simp [withNode]
  · intro change mem
    rcases mem_append.mp mem with old | new
    · have other : change.1 ≠ e := (ordered change.1 (mem_map_of_mem old)).ne
      obtain ⟨present, held⟩ := scheduled.values change old
      simp only [withNode_data other]
      refine ⟨present, (code_update fresh ?_ _).trans held⟩
      rw [held]
      exact encodeDynamicValues_ne
    · rw [mem_singleton.mp new]
      simp only [withNode_data_self after, update_self]
      exact ⟨nonzero, trivial⟩
  · obtain ⟨earlier, change, others, rfl, head, reached, ahead⟩ := scheduled.position
    refine ⟨earlier, change, others ++ [(e, value)], by simp, head, reached, fun other mem => ?_⟩
    rcases mem_append.mp mem with old | new
    · exact ahead other old
    · rw [mem_singleton.mp new]
      omega

theorem Scheduled.initial (bound : epoch < 2 ^ 32)
    (ran : initializeStorage contract (.blank code) msg = .ok s) :
    Scheduled s epoch [(1, initialValues)] := by
  simp only [initializeStorage, Dynamics.addNode, ok_iff'] at ran
  obtain ⟨_, _, _, deployed, addr, created, list, added, rfl⟩ := ran
  obtain ⟨nonzero, rfl, rfl⟩ := deployStorage_ok created
  simp only [DoublyLinkedList.addNode, Storage.blank, Nat.zero_mod, if_true, ok_iff', setHead,
    setTail] at added
  obtain ⟨_, _, _, _, _, _, ⟨_, _, rfl⟩, _, rfl⟩ := added
  refine ⟨bound, by norm_num, ?_, ?_, ?_, ?_, ?_, ?_⟩
  · simp
  · simp
  · simp [Linked, setNode, createNode]
  · rfl
  · simp [setNode, createNode, nonzero]
  · exact ⟨[], (1, initialValues), [], rfl, rfl, by simp, by simp⟩

theorem Scheduled.changeDynamicValues (scheduled : Scheduled s epoch schedule)
    (current : msg.getEpoch = epoch) (fresh : s.code msg.created = [])
    (ran : changeDynamicValues contract s msg relativeExecutionEpoch newValue = .ok s') :
    Scheduled s' epoch (schedule ++ [(relativeExecutionEpoch + epoch, newValue)]) := by
  simp only [Dynamics.changeDynamicValues, computeExecutionEpoch, ok_iff', current,
    Nat.mod_eq_of_lt scheduled.small, add32, Word.add_ok_iff] at ran
  obtain ⟨_, _, _, ⟨⟨least, _⟩, bound, rfl⟩, added⟩ := ran
  have minimum := scheduled.minimum
  exact scheduled.addNode fresh (by omega) bound added

theorem lt_of_increasing {earlier rest : Schedule}
    (increasing : ((earlier ++ change :: first :: rest).map Prod.fst).Pairwise (· < ·)) :
    ∀ other ∈ rest, first.1 < other.1 := by
  rw [pairwise_map, pairwise_append, pairwise_cons, pairwise_cons] at increasing
  exact increasing.2.1.2.1

theorem Scheduled.updateHead (scheduled : Scheduled s epoch schedule) (bound : epoch + 1 < 2 ^ 32)
    (ran : updateHead contract s msg (epoch + 1) = .ok s') : Scheduled s' (epoch + 1) schedule := by
  obtain ⟨earlier, change, later, rfl, head, reached, ahead⟩ := scheduled.position
  have linked := scheduled.linked
  rw [map_append, map_cons] at linked
  have next := linked.neighbours.2
  rw [← head] at next
  simp only [Dynamics.updateHead, bind_ok_iff] at ran
  obtain ⟨_, _, moved⟩ := ran
  rw [next] at moved
  split at moved
  · rename_i due
    simp only [ok_iff', setHead] at moved
    obtain ⟨_, ⟨_, rfl⟩, rfl⟩ := moved
    cases later with
    | nil => exact absurd rfl due.1
    | cons first rest =>
      have due : first.1 ≤ epoch + 1 := due.2
      have near := ahead first (by simp)
      refine { scheduled with small := bound, position := ?_ }
      refine ⟨earlier ++ [change], first, rest, by simp, rfl, by omega, fun other mem => ?_⟩
      have after := lt_of_increasing scheduled.increasing other mem
      omega
  · rename_i undue
    obtain rfl := pure_ok_iff.mp moved
    refine { scheduled with
      small := bound, position := ⟨earlier, change, later, rfl, head, by omega, ?_⟩ }
    cases later with
    | nil => simp
    | cons first rest =>
      have pos := (scheduled.bounds first (by simp)).1
      have far : epoch + 1 < first.1 := by
        by_contra near
        exact undue ⟨by simp only [map_cons, headD_cons]; omega, by
          simp only [map_cons, headD_cons]; omega⟩
      intro other mem
      rcases mem_cons.mp mem with rfl | mem
      · omega
      · have after := lt_of_increasing scheduled.increasing other mem
        omega

theorem Run.scheduled (run : Run contract s epoch schedule) : Scheduled s epoch schedule := by
  induction run with
  | initializeStorage bound _ ran => exact .initial bound ran
  | changeDynamicValues _ current fresh ran ih => exact ih.changeDynamicValues current fresh ran
  | updateHead _ bound ran ih => exact ih.updateHead bound ran
  | setConfiguration _ minimum ran ih =>
    simp only [Dynamics.setConfiguration, ok_iff] at ran
    obtain ⟨_, _, rfl⟩ := ran
    exact ih.congr rfl minimum fun _ _ => rfl
  | updateAliceNetNodeVersion _ ran ih =>
    simp only [Dynamics.updateAliceNetNodeVersion, ok_iff'] at ran
    obtain ⟨_, _, _, _, _, _, _, _, _, rfl⟩ := ran
    exact ih.congr rfl ih.minimum fun _ _ => rfl
  | deployStorage _ fresh ran ih =>
    obtain ⟨_, _, rfl⟩ := deployStorage_ok ran
    exact ih.congr rfl ih.minimum fun addr used => code_update fresh used _

theorem Scheduled.decode (scheduled : Scheduled s epoch schedule) (mem : change ∈ schedule) :
    decodeDynamicValues s (s.dynamicValues.nodes change.1).data = .ok change.2 :=
  decodeDynamicValues_of_code (scheduled.values change mem).2

theorem Scheduled.previous (scheduled : Scheduled s epoch schedule) (since : s.previousEpoch ≤ e)
    (untilNext : s.nextEpoch = 0 ∨ e < s.nextEpoch) :
    ∃ value, getPreviousDynamicValues s e = .ok value ∧ inForce schedule e = some value := by
  obtain ⟨earlier, change, later, rfl, head, reached, ahead⟩ := scheduled.position
  have linked := scheduled.linked
  rw [map_append, map_cons] at linked
  obtain ⟨prev, next⟩ := linked.neighbours
  rw [Storage.previousEpoch, head, prev] at since
  rw [Storage.nextEpoch, head, next] at untilNext
  rw [getPreviousDynamicValues, head, prev]
  by_cases reached : change.1 ≤ e
  · rw [if_pos reached]
    refine ⟨change.2, scheduled.decode (by simp), inForce_eq scheduled.increasing reached ?_⟩
    cases later with
    | nil => simp
    | cons first rest =>
      have pos := (scheduled.bounds first (by simp)).1
      have near : e < first.1 := by
        simp only [map_cons, headD_cons] at untilNext
        omega
      intro other mem
      rcases mem_cons.mp mem with rfl | mem
      · exact near
      · exact near.trans (lt_of_increasing scheduled.increasing other mem)
  · rw [if_neg reached]
    rcases eq_nil_or_concat' earlier with rfl | ⟨front, before, rfl⟩
    · exact absurd (by simpa using since) reached
    · have pos := (scheduled.bounds before (by simp)).1
      simp only [map_append, map_cons, map_nil, getLastD_concat] at since ⊢
      rw [if_neg (by omega)] at since
      rw [if_pos ⟨by omega, since⟩]
      refine ⟨before.2, scheduled.decode (by simp), ?_⟩
      have increasing := scheduled.increasing
      rw [append_assoc] at increasing ⊢
      refine inForce_eq increasing since fun other mem => ?_
      rcases mem_cons.mp mem with rfl | mem
      · omega
      · exact (not_le.mp reached).trans (lt_of_increasing increasing other mem)

/-- In every run the nodes are linked by increasing epochs, the head is the change in force, and the
values of every epoch from the node before the head to the node after it are read right. -/
theorem Run.timeline (run : Run contract s epoch schedule) : Timeline s epoch schedule := by
  have scheduled := run.scheduled
  refine ⟨scheduled.increasing, scheduled.linked, scheduled.tail, scheduled.head_mem, fun started =>
    ?_, fun started => ?_, fun e since untilNext => scheduled.previous since untilNext⟩
  · obtain ⟨earlier, change, later, rfl, head, reached, ahead⟩ := scheduled.position
    rw [head]
    refine ⟨by omega, fun other mem due => ?_⟩
    have increasing := scheduled.increasing
    rw [map_append, map_cons] at mem increasing
    rcases mem_append.mp mem with before | after
    · exact ((pairwise_append.mp increasing).2.2 other before _ (by simp)).le
    · rcases mem_cons.mp after with rfl | after
      · exact le_rfl
      · obtain ⟨item, found, rfl⟩ := mem_map.mp after
        have := ahead item found
        omega
  · obtain ⟨earlier, change, later, rfl, head, reached, ahead⟩ := scheduled.position
    refine ⟨change.2, ?_, inForce_eq scheduled.increasing (by omega) fun other mem => ?_⟩
    · rw [getLatestDynamicValues, head]
      exact scheduled.decode (by simp)
    · have := ahead other mem
      omega

end

def sampleContract : Contract := ⟨1, 2⟩

def sampleValues : DynamicValues := { initialValues with maxBlockSize := 6000000 }

def sampleRun : Except Revert Storage := do
  let s ← initializeStorage sampleContract (.blank fun _ => []) ⟨1, 0, 10⟩
  changeDynamicValues sampleContract s ⟨1, 0, 11⟩ 2 sampleValues

theorem sampleRun_run (ran : sampleRun = .ok s) :
    Run sampleContract s 0 [(1, initialValues), (2, sampleValues)] := by
  obtain ⟨first, initialized, changed⟩ := bind_ok_iff.mp ran
  have started := Run.initializeStorage (show 0 < 2 ^ 32 by norm_num) rfl initialized
  refine started.changeDynamicValues rfl ?_ changed
  have fresh : ((initializeStorage sampleContract (.blank fun _ => []) ⟨1, 0, 10⟩).map fun s =>
      s.code 11) = .ok [] := by
    decide +kernel
  rw [initialized] at fresh
  exact Except.ok.inj fresh

def sampleReached : Except Revert Storage := do
  let s ← sampleRun
  let s ← updateHead sampleContract s ⟨2, 0, 12⟩ 1
  updateHead sampleContract s ⟨2, 1, 12⟩ 2

theorem Run.timeline_sample : ∃ s, sampleReached = .ok s ∧
    Timeline s 2 [(1, initialValues), (2, sampleValues)] ∧ getLatestDynamicValues s =
      .ok sampleValues := by
  have done : (sampleReached >>= getLatestDynamicValues) = .ok sampleValues := by decide +kernel
  obtain ⟨s, ran, latest⟩ := bind_ok_iff.mp done
  obtain ⟨_, begun, rest⟩ := bind_ok_iff.mp ran
  obtain ⟨_, first, second⟩ := bind_ok_iff.mp rest
  have run := ((sampleRun_run begun).updateHead (by norm_num) first).updateHead (by norm_num) second
  exact ⟨s, ran, Run.timeline run, latest⟩

/-- Of an epoch to come the values of today are read, whatever is scheduled, and a second change for
one epoch is refused. -/
theorem getPreviousDynamicValues_future :
    ∃ s schedule, Run sampleContract s 0 schedule ∧ s.previousEpoch ≤ 2 ∧
    getPreviousDynamicValues s 2 = .ok initialValues ∧ inForce schedule 2 = some sampleValues ∧
    initialValues ≠ sampleValues ∧
    ∀ s', changeDynamicValues sampleContract s ⟨1, 0, 12⟩ 2 initialValues ≠ .ok s' := by
  have read : (sampleRun >>= fun s => do
      let value ← getPreviousDynamicValues s 2
      let again := (changeDynamicValues sampleContract s ⟨1, 0, 12⟩ 2 initialValues).map fun _ => ()
      pure (decide (s.previousEpoch ≤ 2), value, again)) =
      .ok (true, initialValues, .error (.InvalidNodeId 1 2 2)) := by decide +kernel
  obtain ⟨s, ran, rest⟩ := bind_ok_iff.mp read
  obtain ⟨value, found, same⟩ := bind_ok_iff.mp rest
  obtain ⟨since, same⟩ := Prod.mk.inj (pure_ok_iff.mp same)
  obtain ⟨rfl, again⟩ := Prod.mk.inj same
  refine ⟨s, _, sampleRun_run ran, of_decide_eq_true since,
    found, by decide +kernel, by decide +kernel, ?_⟩
  intro s' accepted
  rw [accepted] at again
  cases again

end AliceNet.Bridge.Dynamics
