import AliceNet.Application.ValuePaging

/-! The values of an owner over both indexes, with the token that a page hands to the next call. -/

namespace AliceNet.Application

open Consensus (Fault)
open Outcome (require bind_ok_iff pure_ok_iff require_ok_iff require_of)
open List hiding count

inductive LastPaginatedType
  | utxo
  | deposit
  deriving DecidableEq, Repr

def LastPaginatedType.byte : LastPaginatedType → UInt8
  | .utxo => 0
  | .deposit => 1

structure PaginationToken where
  lastPaginatedType : LastPaginatedType
  totalValue : ℕ
  lastKey : Option Bytes
  deriving DecidableEq, Repr

namespace PaginationToken

def marshalBinary (pt : PaginationToken) : Bytes :=
  pt.lastPaginatedType.byte :: Bytes.bigEndian 32 pt.totalValue ++ pt.lastKey.getD []

def unmarshalBinary : Bytes → Except Fault PaginationToken
  | [] => .error (.invalid "pt.unmarshalBinary; bytes invalid")
  | first :: rest => do
    require (65 ≤ rest.length + 1 ∧ first ≤ 1) (.invalid "pt.unmarshalBinary; bytes invalid")
    pure ⟨if first = 0 then .utxo else .deposit, Bytes.value (rest.take 32), some (rest.drop 32)⟩

theorem unmarshal_marshal (word : pt.totalValue < 2 ^ 256) (known : pt.lastKey = some key)
    (long : 32 ≤ key.length) : unmarshalBinary pt.marshalBinary = .ok pt := by
  obtain ⟨kind, totalValue, _⟩ := pt
  subst known
  have enough : 65 ≤ (Bytes.bigEndian 32 totalValue ++ key).length + 1 := by
    rw [length_append, Bytes.length_bigEndian]
    omega
  have known : kind.byte ≤ 1 := by cases kind <;> decide
  refine bind_ok_iff.mpr ⟨(), require_of ⟨enough, known⟩ _, ?_⟩
  simp only [append_eq, Option.getD_some]
  rw [take_left' (Bytes.length_bigEndian _ _), drop_left' (Bytes.length_bigEndian _ _),
    Bytes.value_bigEndian, Nat.mod_eq_of_lt (by simpa using word)]
  cases kind <;> rfl

theorem unmarshal_no_key {pt : PaginationToken} (none : pt.lastKey = none) :
    unmarshalBinary pt.marshalBinary ≠ .ok pt' := by
  intro decoded
  rw [marshalBinary, none] at decoded
  obtain ⟨_, checked, _⟩ := bind_ok_iff.mp decoded
  simp at checked

end PaginationToken

def utxoSpace : Bytes := [110, 48]
def depositSpace : Bytes := [110, 54]

/-- What the handler finds of an owner; `isSpent` asks the trie. -/
structure Holdings (owner : Owner) where
  utxos : ValueIndex.Table utxoSpace owner
  deposits : ValueIndex.Table depositSpace owner
  isSpent : Bytes32 → Except Fault Bool

namespace Holdings

variable {owner : Owner} (h : Holdings owner)

def retrieve : LastPaginatedType → (minValue maxCount : ℕ) → (lastKey : Option Bytes) →
    Except Fault (List Bytes32 × ℕ × Option Bytes)
  | .utxo, minValue, maxCount, lastKey =>
    ValueIndex.GetValueForOwner h.utxos minValue (fun _ => pure false) maxCount lastKey
  | .deposit, minValue, maxCount, lastKey =>
    ValueIndex.GetValueForOwner h.deposits minValue h.isSpent maxCount lastKey

def pageLoop (maxCount minValue : ℕ) : List LastPaginatedType → (resume : Option PaginationToken) →
    (allIds : List Bytes32) → (totalValue : ℕ) →
    Except Fault (List Bytes32 × ℕ × Option PaginationToken)
  | [], _, allIds, totalValue => pure (allIds, totalValue, none)
  | kind :: rest, resume, allIds, totalValue =>
    if minValue ≤ totalValue ∨ ∃ pt ∈ resume, pt.lastPaginatedType ≠ kind then
      pure (allIds, totalValue, none)
    else do
      let (utxoIDs, value, lastKey) ← h.retrieve kind (minValue - totalValue)
        (maxCount - allIds.length) (resume.bind PaginationToken.lastKey)
      let totalValue ← Uint256.add totalValue value
      let allIds := allIds ++ utxoIDs
      if maxCount ≤ allIds.length then pure (allIds, totalValue, some ⟨kind, totalValue, lastKey⟩)
      else pageLoop maxCount minValue rest none allIds totalValue

def getValueForOwner (maxCount minValue : ℕ) (pt : Option PaginationToken) :
    Except Fault (List Bytes32 × ℕ × Option PaginationToken) := do
  let totalValue ← match pt with
    | none => pure 0
    | some pt => Uint256.add 0 pt.totalValue
  h.pageLoop maxCount minValue [.utxo, .deposit] pt [] totalValue

inductive Pages (maxCount minValue : ℕ) : Option PaginationToken → List (List Bytes32) → Prop
  | last (answer : h.getValueForOwner maxCount minValue pt = .ok (ids, total, none)) :
      Pages maxCount minValue pt [ids]
  | next (answer : h.getValueForOwner maxCount minValue pt = .ok (ids, total, some token))
      (decoded : PaginationToken.unmarshalBinary token.marshalBinary = .ok token')
      (rest : Pages maxCount minValue (some token') pages) :
        Pages maxCount minValue pt (ids :: pages)

end Holdings

namespace ValueIndex

def worth (entries : List ValueEntry) : ℕ := (entries.map ValueEntry.value).sum

def ids (entries : List ValueEntry) : List Bytes32 := entries.map ValueEntry.utxoID

@[simp] theorem worth_nil : worth [] = 0 := rfl

@[simp] theorem worth_cons (entry : ValueEntry) (rest : List ValueEntry) :
    worth (entry :: rest) = entry.value + worth rest := rfl

@[simp] theorem worth_append (first second : List ValueEntry) :
    worth (first ++ second) = worth first + worth second := by
  simp [worth]

/-- The shortest beginning that has the value, or all. -/
def upTo : ℕ → List ValueEntry → List ValueEntry
  | _, [] => []
  | value, entry :: rest => if value = 0 then [] else entry :: upTo (value - entry.value) rest

@[simp] theorem upTo_zero (entries : List ValueEntry) : upTo 0 entries = [] := by
  cases entries <;> rfl

theorem upTo_cons (pos : 0 < value) (entry : ValueEntry) (rest : List ValueEntry) :
    upTo value (entry :: rest) = entry :: upTo (value - entry.value) rest := by
  rw [upTo, if_neg pos.ne']

theorem upTo_append (value : ℕ) (first second : List ValueEntry) :
    upTo value (first ++ second) = upTo value first ++ upTo (value - worth first) second := by
  induction first generalizing value with
  | nil => simp [upTo]
  | cons entry rest ih =>
    by_cases zero : value = 0
    · simp [zero]
    · rw [cons_append, upTo_cons (Nat.pos_of_ne_zero zero), upTo_cons (Nat.pos_of_ne_zero zero), ih,
        cons_append, worth_cons, Nat.sub_sub]

theorem upTo_of_worth_lt {entries : List ValueEntry} (short : worth entries < value) :
    upTo value entries = entries := by
  induction entries generalizing value with
  | nil => rfl
  | cons entry rest ih =>
    rw [worth_cons] at short
    rw [upTo_cons (by omega), ih (by omega)]

theorem upTo_isPrefix (value : ℕ) (entries : List ValueEntry) : upTo value entries <+: entries := by
  induction entries generalizing value with
  | nil => exact prefix_refl _
  | cons entry rest ih =>
    rw [upTo]
    split
    · exact nil_prefix
    · exact cons_prefix_cons.mpr ⟨rfl, ih _⟩

private theorem length_le_of_reached {entries : List ValueEntry}
    (reached : value ≤ worth ((upTo value entries).take count)) :
    (upTo value entries).length ≤ count := by
  induction entries generalizing value count with
  | nil => exact Nat.zero_le _
  | cons entry rest ih =>
    by_cases zero : value = 0
    · simp [zero]
    rw [upTo_cons (Nat.pos_of_ne_zero zero)] at reached ⊢
    cases count with
    | zero => simp at reached; omega
    | succ count =>
      rw [take_succ_cons, worth_cons] at reached
      exact Nat.succ_le_succ (ih (by omega))

private theorem scan_exclude {spent : Bytes32 → Bool} (answers : ∀ id, isSpent id = .ok (spent id))
    (entries : List ValueEntry) (result : List Bytes32) (total : ℕ) :
    scan minValue isSpent maxCount entries result total =
      scan minValue (fun _ => pure false) maxCount (entries.filter fun entry => !spent entry.utxoID)
        result total := by
  induction entries generalizing result total with
  | nil => rfl
  | cons entry rest ih =>
    cases excluded : spent entry.utxoID with
    | true =>
      rw [filter_cons_of_neg (by simp [excluded]), ← ih, scan, answers, excluded]
      rfl
    | false =>
      rw [filter_cons_of_pos (by simp [excluded]), scan, scan, answers, excluded]
      simp only [ih]
      rfl

/-- The part of the list that a scan with a limit takes. -/
def page (value maxCount : ℕ) (entries : List ValueEntry) : List ValueEntry :=
  (upTo value entries).take maxCount

private theorem page_cons (pos : 0 < value) (entry : ValueEntry) (rest : List ValueEntry) :
    page value (count + 1) (entry :: rest) = entry :: page (value - entry.value) count rest := by
  rw [page, upTo_cons pos, take_succ_cons]
  rfl

/-- The entry whose key a scan gives. -/
def lastOf (value maxCount : ℕ) (taken : List ValueEntry) : Option ValueEntry :=
  if worth taken < value ∧ taken.length = maxCount then taken.getLast? else none

private theorem scan_cons_iff {entry : ValueEntry} {result : List Bytes32} :
    scan minValue (fun _ => pure false) maxCount (entry :: rest) result total = .ok answer ↔
      total + entry.value < 2 ^ 256 ∧
        (if minValue ≤ total + entry.value then pure (result ++ [entry.utxoID], total + entry.value,
          none)
          else if maxCount ≤ (result ++ [entry.utxoID]).length
          then pure (result ++ [entry.utxoID], total + entry.value, some entry)
          else scan minValue (fun _ => pure false) maxCount rest (result ++ [entry.utxoID])
            (total + entry.value)) =
        .ok answer := by
  show (Uint256.add total entry.value >>= _) = _ ↔ _
  rw [bind_ok_iff]
  constructor
  · rintro ⟨_, sum, ran⟩
    obtain ⟨fits, rfl⟩ := Word.add_ok_iff.mp sum
    exact ⟨fits, ran⟩
  · rintro ⟨fits, ran⟩
    exact ⟨_, Word.add_ok_iff.mpr ⟨fits, rfl⟩, ran⟩

private theorem scan_ok_iff {entries : List ValueEntry} {result : List Bytes32}
    (word : total < 2 ^ 256) (short : total < minValue)
    (taken : page (minValue - total) (count + 1) entries = here) :
    scan minValue (fun _ => pure false) (result.length + (count + 1)) entries result total =
      .ok answer ↔
      total + worth here < 2 ^ 256 ∧
        answer = (result ++ ids here, total + worth here,
          lastOf (minValue - total) (count + 1) here) := by
  induction entries generalizing result total count here with
  | nil =>
    obtain rfl : here = [] := taken.symm.trans take_nil
    rw [scan, pure_ok_iff, eq_comm, ids, map_nil, append_nil, worth_nil, Nat.add_zero, lastOf,
      if_neg (by simp)]
    exact ⟨fun same => ⟨word, same⟩, And.right⟩
  | cons entry rest ih =>
    rw [page_cons (by omega), Nat.sub_sub] at taken
    subst taken
    rw [scan_cons_iff, worth_cons]
    by_cases reached : minValue ≤ total + entry.value
    · have none : page (minValue - (total + entry.value)) count rest = [] := by
        rw [Nat.sub_eq_zero_of_le reached, page, upTo_zero, take_nil]
      rw [if_pos reached, none, lastOf,
        if_neg (fun last => by rw [worth_cons, worth_nil] at last; omega), pure_ok_iff, eq_comm]
      rfl
    rw [if_neg reached]
    cases count with
    | zero =>
      have none : page (minValue - (total + entry.value)) 0 rest = [] := take_zero
      rw [if_pos (by simp), none, lastOf, if_pos ⟨by rw [worth_cons, worth_nil]; omega, rfl⟩,
        pure_ok_iff, eq_comm]
      rfl
    | succ count =>
      have last : ∀ more, lastOf (minValue - total) (count + 1 + 1) (entry :: more) =
          lastOf (minValue - (total + entry.value)) (count + 1) more := by
        intro more
        have same : entry.value + worth more < minValue - total ↔
          worth more < minValue - (total + entry.value) := by omega
        simp only [lastOf, worth_cons, length_cons, Nat.add_right_cancel_iff, same]
        cases more <;> simp
      have length : result.length + (count + 1 + 1) = (result ++ [entry.utxoID]).length +
          (count + 1) := by
        rw [length_append, length_singleton]
        omega
      rw [if_neg (by simp), length, last]
      generalize remaining : page (minValue - (total + entry.value)) (count + 1) rest = more
      constructor
      · rintro ⟨fits, ran⟩
        obtain ⟨fits, rfl⟩ := (ih fits (by omega) remaining).mp ran
        exact ⟨by omega, by simp [ids, Nat.add_assoc]⟩
      · rintro ⟨fits, rfl⟩
        exact ⟨by omega, (ih (by omega) (by omega) remaining).mpr
          ⟨by omega, by simp [ids, Nat.add_assoc]⟩⟩

private theorem worth_upTo {entries : List ValueEntry} (enough : value ≤ worth entries) :
    value ≤ worth (upTo value entries) := by
  induction entries generalizing value with
  | nil => exact enough
  | cons entry rest ih =>
    by_cases zero : value = 0
    · omega
    · rw [worth_cons] at enough
      have tail := @ih (value - entry.value) (by omega)
      rw [upTo_cons (Nat.pos_of_ne_zero zero), worth_cons]
      omega

theorem GetValueForOwner_ok_iff {space : Bytes} {owner : Owner} (table : Table space owner)
    {spent : Bytes32 → Bool} (answers : ∀ id, isSpent id = .ok (spent id)) (pos : 0 < minValue)
    (room : 0 < maxCount)
    (list : (visited table lastKey).filter (fun entry => !spent entry.utxoID) = entries)
    (taken : page minValue maxCount entries = here) :
    GetValueForOwner table minValue isSpent maxCount lastKey = .ok answer ↔ worth here < 2 ^ 256 ∧
      answer = (ids here, worth here,
        (lastOf minValue maxCount here).map (makeKey space owner)) := by
  obtain ⟨count, rfl⟩ := Nat.exists_eq_succ_of_ne_zero room.ne'
  have scanned := fun answer => @scan_ok_iff 0 minValue count here answer entries [] (by norm_num)
    pos taken
  simp only [length_nil, Nat.zero_add, Nat.sub_zero, nil_append] at scanned
  rw [GetValueForOwner, bind_ok_iff, scan_exclude answers, list]
  simp only [scanned, pure_ok_iff]
  constructor
  · rintro ⟨_, ⟨fits, rfl⟩, rfl⟩
    exact ⟨fits, rfl⟩
  · rintro ⟨fits, rfl⟩
    exact ⟨_, ⟨fits, rfl⟩, rfl⟩

end ValueIndex

namespace Holdings

open ValueIndex

variable {owner : Owner} (h : Holdings owner)

def keyOf (owner : Owner) : LastPaginatedType → ValueEntry → Bytes
  | .utxo => makeKey utxoSpace owner
  | .deposit => makeKey depositSpace owner

/-- The token after a page: none if there was room for more. -/
def tokenAfter (owner : Owner) (maxCount minValue total : ℕ) (kind : LastPaginatedType)
    (taken : List ValueEntry) : Option PaginationToken :=
  if taken.length < maxCount then none
  else some ⟨kind, total + worth taken, if total + worth taken < minValue then
    taken.getLast?.map (keyOf owner kind) else none⟩

theorem tokenAfter_room {taken : List ValueEntry} (room : taken.length < maxCount) :
    tokenAfter owner maxCount minValue total kind taken = none :=
  if_pos room

theorem tokenAfter_full {taken : List ValueEntry} (full : taken.length = maxCount) :
    tokenAfter owner maxCount minValue total kind taken = some ⟨kind, total + worth taken,
      if total + worth taken < minValue then taken.getLast?.map (keyOf owner kind) else none⟩ :=
  if_neg (by omega)

theorem tokenAfter_reached {taken : List ValueEntry} (full : taken.length = maxCount)
    (reached : minValue ≤ total + worth taken) :
    tokenAfter owner maxCount minValue total kind taken = some ⟨kind, total + worth taken,
      none⟩ := by
  rw [tokenAfter_full full, if_neg (by omega)]

private theorem tokenAfter_open (kind : LastPaginatedType) {taken : List ValueEntry}
    (full : taken.length = maxCount) (room : 0 < maxCount)
    (short : total + worth taken < minValue) : ∃ entry, taken.getLast? = some entry ∧
      tokenAfter owner maxCount minValue total kind taken = some ⟨kind, total + worth taken,
        some (keyOf owner kind entry)⟩ := by
  cases last : taken.getLast? with
  | none =>
    rw [getLast?_eq_none_iff.mp last, length_nil] at full
    omega
  | some entry =>
    refine ⟨entry, rfl, ?_⟩
    rw [tokenAfter_full full, if_pos short, last]
    rfl

variable {h}

private theorem pageLoop_cons_iff {allIds : List Bytes32} (short : total < minValue)
    (own : ∀ pt ∈ resume, pt.lastPaginatedType = kind)
    (retrieved : ∀ answer, h.retrieve kind (minValue - total) (maxCount - allIds.length)
      (resume.bind PaginationToken.lastKey) = .ok answer ↔
      worth here < 2 ^ 256 ∧
      answer = (ids here, worth here,
      (lastOf (minValue - total) (maxCount - allIds.length) here).map (keyOf owner kind)))
    (most : allIds.length + here.length ≤ maxCount) :
    h.pageLoop maxCount minValue (kind :: kinds) resume allIds total = .ok answer ↔
      total + worth here < 2 ^ 256 ∧
      (if allIds.length + here.length = maxCount then .ok (allIds ++ ids here, total + worth here,
        some ⟨kind, total + worth here, if total + worth here < minValue then
          here.getLast?.map (keyOf owner kind) else none⟩)
      else h.pageLoop maxCount minValue kinds none (allIds ++ ids here) (total + worth here)) =
        .ok answer := by
  have start : ¬(minValue ≤ total ∨ ∃ pt ∈ resume, pt.lastPaginatedType ≠ kind) := by
    rw [not_or]
    exact ⟨by omega, fun ⟨pt, mem, other⟩ => other (own pt mem)⟩
  have count : (allIds ++ ids here).length = allIds.length + here.length := by
    rw [length_append, ids, length_map]
  have sum : ∀ total', Uint256.add total (worth here) = .ok total' ↔ total + worth here < 2 ^ 256 ∧
    total + worth here = total' := fun _ => Word.add_ok_iff
  have continued : (if maxCount ≤ (allIds ++ ids here).length then
      pure (allIds ++ ids here, total + worth here,
      some ⟨kind, total + worth here,
        (lastOf (minValue - total) (maxCount - allIds.length) here).map (keyOf owner kind)⟩)
      else h.pageLoop maxCount minValue kinds none (allIds ++ ids here) (total + worth here)) =
      (if allIds.length + here.length = maxCount then
        Except.ok (allIds ++ ids here, total + worth here,
        some ⟨kind, total + worth here, if total + worth here < minValue then
          here.getLast?.map (keyOf owner kind) else none⟩)
      else h.pageLoop maxCount minValue kinds none (allIds ++ ids here) (total + worth here)) := by
    rw [count]
    by_cases full : allIds.length + here.length = maxCount
    · rw [if_pos full.ge, if_pos full, lastOf]
      by_cases reached : total + worth here < minValue
      · rw [if_pos ⟨by omega, by omega⟩, if_pos reached]
        rfl
      · rw [if_neg (by omega), if_neg reached]
        rfl
    · rw [if_neg (by omega), if_neg full]
  rw [pageLoop, if_neg start]
  simp only [bind_ok_iff, retrieved]
  constructor
  · rintro ⟨_, ⟨_, rfl⟩, _, added, ran⟩
    obtain ⟨fits, rfl⟩ := (sum _).mp added
    exact ⟨fits, continued ▸ ran⟩
  · rintro ⟨fits, ran⟩
    exact ⟨_, ⟨by omega, rfl⟩, _, (sum _).mpr ⟨fits, rfl⟩, continued.symm ▸ ran⟩

private theorem retrieve_utxo_iff (pos : 0 < value) (room : 0 < maxCount)
    (rest : visited h.utxos lastKey = remaining) (taken : page value maxCount remaining = here)
    (answer : List Bytes32 × ℕ × Option Bytes) :
    h.retrieve .utxo value maxCount lastKey = .ok answer ↔ worth here < 2 ^ 256 ∧
      answer = (ids here, worth here, (lastOf value maxCount here).map (keyOf owner .utxo)) := by
  refine GetValueForOwner_ok_iff h.utxos (fun _ => rfl) pos room ?_ taken
  rw [rest]
  exact filter_eq_self.mpr fun _ _ => rfl

private theorem length_page_le (value maxCount : ℕ) (entries : List ValueEntry) :
    (page value maxCount entries).length ≤ maxCount :=
  length_take_le _ _

private theorem pageLoop_ok_iff {spent : Bytes32 → Bool}
    (answers : ∀ id, h.isSpent id = .ok (spent id)) (short : total < minValue) (room : 0 < maxCount)
    (own : ∀ pt ∈ resume, pt.lastPaginatedType = .utxo)
    (rest : visited h.utxos (resume.bind PaginationToken.lastKey) = remaining)
    (list : h.deposits.entries.filter (fun entry => !spent entry.utxoID) = available)
    (taken : page (minValue - total) maxCount (remaining ++ available) = here) :
    h.pageLoop maxCount minValue [.utxo, .deposit] resume [] total = .ok answer ↔
      total + worth here < 2 ^ 256 ∧
      answer = (ids here, total + worth here, tokenAfter owner maxCount minValue total
        (if maxCount ≤ (upTo (minValue - total) remaining).length then .utxo else .deposit)
          here) := by
  have whole : here = page (minValue - total) maxCount remaining ++
      page (minValue - total - worth remaining)
          (maxCount - (upTo (minValue - total) remaining).length) available := by
    rw [← taken, page, upTo_append, take_append]
    rfl
  have round := @pageLoop_cons_iff _ h total minValue resume .utxo maxCount _ [.deposit] answer
    [] short own
    (retrieve_utxo_iff (by omega) room rest rfl)
      (by rw [length_nil, Nat.zero_add]; exact length_page_le _ _ _)
  simp only [length_nil, Nat.sub_zero, Nat.zero_add, nil_append] at round
  rw [round]
  by_cases inside : maxCount ≤ (upTo (minValue - total) remaining).length
  · have full : (page (minValue - total) maxCount remaining).length = maxCount := by
      rw [page, length_take, Nat.min_eq_left inside]
    rw [Nat.sub_eq_zero_of_le inside, page.eq_def _ 0, take_zero, append_nil] at whole
    rw [← whole] at full ⊢
    rw [if_pos full, if_pos inside, tokenAfter_full full, Except.ok.injEq, eq_comm]
  have first : page (minValue - total) maxCount remaining = upTo (minValue - total) remaining :=
    take_of_length_le (Nat.le_of_not_le inside)
  rw [first] at whole ⊢
  rw [if_neg (by omega), if_neg inside]
  by_cases reached : minValue ≤ total + worth (upTo (minValue - total) remaining)
  · have more : worth (upTo (minValue - total) remaining) ≤ worth remaining :=
      ((upTo_isPrefix _ remaining).sublist.map _).sum_le_sum fun _ _ => Nat.zero_le _
    have nothing : minValue - total - worth remaining = 0 := by omega
    rw [nothing, page, upTo_zero, take_nil, append_nil] at whole
    rw [pageLoop, if_pos (.inl reached), ← whole, tokenAfter_room (by rw [whole]; omega),
      pure_ok_iff, eq_comm]
  · have all : upTo (minValue - total) remaining = remaining := by
      refine upTo_of_worth_lt (Nat.lt_of_not_le fun enough => reached ?_)
      have := worth_upTo enough
      omega
    rw [all] at whole inside reached ⊢
    have count : (ids remaining).length = remaining.length := length_map _
    generalize deposited : page (minValue - total - worth remaining) (maxCount - remaining.length)
      available = more at whole
    have most := length_page_le (minValue - total - worth remaining) (maxCount - remaining.length)
      available
    rw [deposited] at most
    rw [Nat.sub_sub, ← count] at deposited
    have round := @pageLoop_cons_iff _ h (total + worth remaining) minValue none .deposit maxCount
      more [] answer (ids remaining) (by omega) nofun
      (fun _ => GetValueForOwner_ok_iff h.deposits answers (by omega) (by omega) list deposited)
        (by omega)
    have worths : total + worth remaining + worth more = total + worth here := by rw [whole,
      worth_append, Nat.add_assoc]
    have listed : ids remaining ++ ids more = ids here := by rw [whole, ids, ids, ids, map_append]
    have length : here.length = remaining.length + more.length := by rw [whole, length_append]
    rw [round, count, worths, listed]
    refine (and_congr_right fun _ => and_congr_right fun _ =>
      ?_).trans (and_iff_right_of_imp fun both => by omega)
    by_cases full : remaining.length + more.length = maxCount
    · have last : more.getLast? = here.getLast? := by
        rw [whole, getLast?_append_of_ne_nil]
        rintro rfl
        rw [length_nil] at full
        omega
      rw [if_pos full, tokenAfter_full (by omega), last, Except.ok.injEq, eq_comm]
    · rw [if_neg full, tokenAfter_room (by omega), pageLoop, pure_ok_iff, eq_comm]

/-- The token with which a client that has seen these outputs goes on. -/
def resumeAt (owner : Owner) (seen : List ValueEntry) : Option PaginationToken :=
  seen.getLast?.map fun last => ⟨.utxo, worth seen, some (keyOf owner .utxo last)⟩

private theorem visited_resumeAt (split : h.utxos.entries = seen ++ remaining) :
    visited h.utxos ((resumeAt owner seen).bind PaginationToken.lastKey) = remaining := by
  rcases eq_nil_or_concat seen with rfl | ⟨init, last, rfl⟩
  · exact split
  · rw [concat_eq_append, append_assoc, singleton_append] at split
    have mem : last ∈ h.utxos.entries := by simp [split]
    have place : Bytes.value (keyOf owner .utxo last) = rank utxoSpace owner last := by
      rw [rank]
      rfl
    rw [resumeAt, concat_eq_append, getLast?_concat]
    show (h.utxos.seek (Bytes.value (keyOf owner .utxo last))).tail = remaining
    rw [place, SortedTable.seek_of_mem mem, tail_cons, SortedTable.after_append split]

theorem getValueForOwner_ok_iff {spent : Bytes32 → Bool}
    (answers : ∀ id, h.isSpent id = .ok (spent id)) (room : 0 < maxCount)
    (split : h.utxos.entries = seen ++ remaining) (short : worth seen < minValue)
    (list : h.deposits.entries.filter (fun entry => !spent entry.utxoID) = available)
    (taken : page (minValue - worth seen) maxCount (remaining ++ available) = here) :
    h.getValueForOwner maxCount minValue (resumeAt owner seen) = .ok answer ↔
      worth seen + worth here < 2 ^ 256 ∧
      answer = (ids here, worth seen + worth here, tokenAfter owner maxCount minValue (worth seen)
        (if maxCount ≤ (upTo (minValue - worth seen) remaining).length then .utxo else .deposit)
          here) := by
  have own : ∀ pt ∈ resumeAt owner seen, pt.lastPaginatedType = .utxo := by
    intro pt mem
    obtain ⟨last, _, rfl⟩ := Option.map_eq_some_iff.mp mem
    rfl
  have loop : h.pageLoop maxCount minValue _ (resumeAt owner seen) [] (worth seen) = .ok answer ↔
      _ :=
    pageLoop_ok_iff answers short room own (visited_resumeAt split) list taken
  cases last : seen.getLast? with
  | none =>
    rw [getLast?_eq_none_iff.mp last] at loop ⊢
    exact loop
  | some entry =>
    rw [resumeAt, last] at loop ⊢
    constructor
    · intro ran
      obtain ⟨_, sum, ran⟩ := bind_ok_iff.mp ran
      obtain ⟨_, rfl⟩ := Word.add_ok_iff.mp sum
      rw [Nat.zero_add] at ran
      exact loop.mp ran
    · intro both
      have word : 0 + worth seen < 2 ^ 256 := by omega
      exact bind_ok_iff.mpr ⟨_, Word.add_ok_iff.mpr ⟨word, Nat.zero_add _⟩, loop.mpr both⟩

private theorem pages_iff_last
    (answer : h.getValueForOwner maxCount minValue pt = .ok (here, total, none)) :
    h.Pages maxCount minValue pt pages ↔ pages = [here] := by
  constructor
  · intro run
    cases run with
    | last other =>
      rw [answer, Except.ok.injEq, Prod.mk.injEq] at other
      rw [other.1]
    | next other =>
      rw [answer] at other
      cases other
  · rintro rfl
    exact .last answer

theorem pages_iff_next
    (answer : h.getValueForOwner maxCount minValue pt = .ok (here, total, some token)) :
    h.Pages maxCount minValue pt pages ↔ ∃ token' rest,
      PaginationToken.unmarshalBinary token.marshalBinary = .ok token' ∧
      h.Pages maxCount minValue (some token') rest ∧ pages = here :: rest := by
  constructor
  · intro run
    cases run with
    | last other =>
      rw [answer] at other
      cases other
    | next other decoded rest =>
      rw [answer, Except.ok.injEq, Prod.mk.injEq, Prod.mk.injEq, Option.some.injEq] at other
      obtain ⟨rfl, _, rfl⟩ := other
      exact ⟨_, _, decoded, rest, rfl⟩
  · rintro ⟨token', rest, decoded, run, rfl⟩
    exact .next answer decoded run

private theorem getValueForOwner_deposit (word : total < 2 ^ 256) :
    h.getValueForOwner maxCount minValue (some ⟨.deposit, total, lastKey⟩) =
      .ok ([], total, none) := by
  refine bind_ok_iff.mpr ⟨total, Word.add_ok_iff.mpr ⟨by rwa [Nat.zero_add], Nat.zero_add _⟩, ?_⟩
  exact if_pos (.inr ⟨_, rfl, nofun⟩)

theorem length_keyOf : 32 ≤ (keyOf owner kind item).length := by
  cases kind <;> simp only [keyOf, makeKey, length_append, Bytes32.length_toBytes] <;> omega

variable (h) in
/-- The pages from some token on list these ids. -/
def Lists (maxCount minValue : ℕ) (pt : Option PaginationToken) (listed : List Bytes32) : Prop :=
  ∃ pages, h.Pages maxCount minValue pt pages ∧ pages.flatten = listed

def Breaks (maxCount : ℕ) (reached : Prop) (outputs entries : ℕ) : Prop :=
  (reached → entries ≠ 0 → ¬maxCount ∣ entries) ∧ ∀ k, outputs < k * maxCount →
    entries ≤ k * maxCount

theorem breaks_small (small : entries < maxCount) : Breaks maxCount reached outputs entries := by
  refine ⟨fun _ some whole => ?_, fun k above => ?_⟩
  · exact absurd (Nat.le_of_dvd (Nat.pos_of_ne_zero some) whole) (by omega)
  · cases k with
    | zero => omega
    | succ k => rw [Nat.succ_mul]; omega

private theorem breaks_add (open_ : entries = 0 → ¬reached) :
    Breaks maxCount reached (maxCount + outputs) (maxCount + entries) ↔
      Breaks maxCount reached outputs entries := by
  refine and_congr ⟨fun last arrived some whole => ?_, fun last arrived _ whole =>
    ?_⟩ ⟨fun ends k above => ?_, fun ends k above => ?_⟩
  · exact last arrived (by omega) (Nat.dvd_add (Nat.dvd_refl _) whole)
  · exact last arrived (fun zero => open_ zero arrived)
      ((Nat.dvd_add_right (Nat.dvd_refl _)).mp whole)
  · have := ends (k + 1) (by rw [Nat.succ_mul]; omega)
    rw [Nat.succ_mul] at this
    omega
  · cases k with
    | zero => omega
    | succ k =>
      rw [Nat.succ_mul] at above ⊢
      have := ends k (by omega)
      omega

theorem lists_of_last (answer : h.getValueForOwner maxCount minValue pt = .ok (here, total, none)) :
    h.Lists maxCount minValue pt listed ↔ here = listed := by
  simp only [Lists, pages_iff_last answer, exists_eq_left, flatten_singleton]

theorem lists_of_next
    (answer : h.getValueForOwner maxCount minValue pt = .ok (here, total, some token))
    (decoded : PaginationToken.unmarshalBinary token.marshalBinary = .ok token') :
    h.Lists maxCount minValue pt (here ++ rest) ↔ h.Lists maxCount minValue (some token') rest := by
  simp only [Lists, pages_iff_next answer]
  constructor
  · rintro ⟨_, ⟨other, pages, decoded', run, rfl⟩, same⟩
    rw [decoded, Except.ok.injEq] at decoded'
    subst decoded'
    rw [flatten_cons, append_cancel_left_eq] at same
    exact ⟨pages, run, same⟩
  · rintro ⟨pages, run, rfl⟩
    exact ⟨_, ⟨_, pages, decoded, run, rfl⟩, rfl⟩

theorem not_lists_of_no_key
    (answer : h.getValueForOwner maxCount minValue pt =
      .ok (here, total, some ⟨kind, total, none⟩)) : ¬h.Lists maxCount minValue pt listed := by
  rintro ⟨pages, run, _⟩
  obtain ⟨_, _, decoded, _⟩ := (pages_iff_next answer).mp run
  exact PaginationToken.unmarshal_no_key rfl decoded

private theorem lists_of_deposit_token {final : ValueEntry} (word : total < 2 ^ 256)
    (answer : h.getValueForOwner maxCount minValue pt =
      .ok (here, total, some ⟨.deposit, total, some (keyOf owner .deposit final)⟩)) :
    h.Lists maxCount minValue pt (here ++ rest) ↔ rest = [] := by
  have decoded :=
    @PaginationToken.unmarshal_marshal _ ⟨.deposit, total, some (keyOf owner .deposit final)⟩ word
    rfl
    length_keyOf
  rw [lists_of_next answer decoded, lists_of_last (getValueForOwner_deposit word), eq_comm]

private theorem lists_of_utxo_token {final : ValueEntry} (word : worth (seen ++ here) < 2 ^ 256)
    (last : here.getLast? = some final)
    (answer : h.getValueForOwner maxCount minValue pt = .ok (ids here, worth (seen ++ here),
      some ⟨.utxo, worth (seen ++ here), some (keyOf owner .utxo final)⟩)) :
    h.Lists maxCount minValue pt (ids here ++ rest) ↔
      h.Lists maxCount minValue (resumeAt owner (seen ++ here)) rest := by
  have decoded := @PaginationToken.unmarshal_marshal _ ⟨.utxo, worth (seen ++ here),
    some (keyOf owner .utxo final)⟩ word rfl length_keyOf
  have nonempty : here ≠ [] := by
    rintro rfl
    cases last
  rw [lists_of_next answer decoded, resumeAt, getLast?_append_of_ne_nil _ nonempty, last]
  rfl

private theorem lists_iff_at {spent : Bytes32 → Bool}
    (answers : ∀ id, h.isSpent id = .ok (spent id)) (room : 0 < maxCount)
    (list : h.deposits.entries.filter (fun entry => !spent entry.utxoID) = available)
    (remaining : List ValueEntry) (split : h.utxos.entries = seen ++ remaining)
    (short : worth seen < minValue)
    (whole : upTo (minValue - worth seen) (remaining ++ available) = listed)
    (fits : worth seen + worth listed < 2 ^ 256) :
    h.Lists maxCount minValue (resumeAt owner seen) (ids listed) ↔
      Breaks maxCount (minValue ≤ worth seen + worth listed)
      (upTo (minValue - worth seen) remaining).length listed.length := by
  induction size : remaining.length using Nat.strong_induction_on generalizing seen remaining
    listed with
  | _ size ih =>
    obtain ⟨here, cut⟩ : ∃ here, listed.take maxCount = here := ⟨_, rfl⟩
    have taken : page (minValue - worth seen) maxCount (remaining ++ available) =
      here := by rw [page, whole, cut]
    have parts : listed = here ++ listed.drop maxCount := by rw [← cut, take_append_drop]
    generalize listed.drop maxCount = rest at parts
    subst parts
    rw [worth_append] at fits ⊢
    have answer := (getValueForOwner_ok_iff answers room split short list taken).mpr ⟨by omega, rfl⟩
    by_cases small : (here ++ rest).length < maxCount
    · obtain rfl : rest = [] := by
        rw [take_of_length_le small.le] at cut
        exact append_right_eq_self.mp cut
      rw [append_nil] at small ⊢
      rw [tokenAfter_room small] at answer
      exact iff_of_true ((lists_of_last answer).mpr rfl) (breaks_small small)
    have full : here.length = maxCount := by
      rw [← cut, length_take]
      omega
    by_cases reached : minValue ≤ worth seen + worth here
    · rw [tokenAfter_reached full reached] at answer
      have last : (here ++ rest).length ≤ maxCount := by
        rw [← whole]
        refine length_le_of_reached ?_
        rw [← page, taken]
        omega
      refine iff_of_false (not_lists_of_no_key answer) fun ⟨ends, _⟩ => ?_
      refine ends (by omega) (by omega) ?_
      rw [Nat.le_antisymm last (by omega)]
    by_cases inside : maxCount ≤ (upTo (minValue - worth seen) remaining).length
    · obtain ⟨final, last, token⟩ :=
        @tokenAfter_open owner maxCount (worth seen) minValue .utxo here full room (by omega)
      rw [if_pos inside, token, ← worth_append] at answer
      obtain ⟨later, rfl⟩ : ∃ later, remaining = here ++ later := by
        obtain ⟨later, follows⟩ := upTo_isPrefix (minValue - worth seen) remaining
        refine ⟨(upTo (minValue - worth seen) remaining).drop maxCount ++ later, ?_⟩
        rw [← taken, page, upTo_append, take_append_of_le_length inside, ← append_assoc,
          take_append_drop, follows]
      have worthLt : worth here < minValue - worth seen := by omega
      have next : minValue - worth seen - worth here =
        minValue - worth (seen ++ here) := by rw [worth_append, Nat.sub_sub]
      have begins : ∀ others, upTo (minValue - worth seen) (here ++ others) =
          here ++ upTo (minValue - worth (seen ++ here)) others := by
        intro others
        rw [upTo_append, upTo_of_worth_lt worthLt, next]
      rw [append_assoc, begins, append_cancel_left_eq] at whole
      rw [← append_assoc] at split
      have sum : worth seen + (worth here + worth rest) = worth (seen ++ here) + worth rest := by
        rw [worth_append, Nat.add_assoc]
      have later' := ih later.length (by rw [← size, length_append]; omega) later split
        (by rw [worth_append]; omega) whole (by omega) rfl
      have ahead : (ids (here ++ rest)) = ids here ++ ids rest := map_append
      rw [ahead, lists_of_utxo_token (by rw [worth_append]; omega) last answer, later', begins,
        length_append, length_append, full, sum, breaks_add]
      intro ended arrived
      rw [length_eq_zero_iff.mp ended, worth_nil, worth_append] at arrived
      omega
    · obtain ⟨final, last, token⟩ :=
        @tokenAfter_open owner maxCount (worth seen) minValue .deposit here full room (by omega)
      rw [if_neg inside, token] at answer
      rw [ids, map_append]
      refine (lists_of_deposit_token (by omega) answer).trans ?_
      rw [map_eq_nil_iff, ← length_eq_zero_iff, length_append, full]
      constructor
      · intro ended
        refine ⟨fun arrived => ?_, fun k above => ?_⟩
        · rw [length_eq_zero_iff.mp ended, worth_nil] at arrived
          omega
        · cases k with
          | zero => omega
          | succ k => rw [Nat.succ_mul]; omega
      · rintro ⟨_, ends⟩
        have := ends 1 (by omega)
        omega

variable (h) in
def noLimit : ℕ := h.utxos.entries.length + h.deposits.entries.length + 1

private theorem page_noLimit (short : entries.length < maxCount) :
    page value maxCount entries = upTo value entries :=
  take_of_length_le ((upTo_isPrefix value entries).length_le.trans short.le)

private theorem single_call {spent : Bytes32 → Bool} (answers : ∀ id, h.isSpent id = .ok (spent id))
    (list : h.deposits.entries.filter (fun entry => !spent entry.utxoID) = available)
    (single : h.getValueForOwner h.noLimit minValue none = .ok (listed, total, token)) :
    listed = ids (upTo minValue (h.utxos.entries ++ available)) ∧
      total = worth (upTo minValue (h.utxos.entries ++ available)) ∧ total < 2 ^ 256 := by
  have few : available.length ≤ h.deposits.entries.length := by
    rw [← list]
    exact length_filter_le _ _
  obtain ⟨_, start, loop⟩ := bind_ok_iff.mp single
  cases start
  change h.pageLoop h.noLimit minValue [.utxo, .deposit] none [] 0 = _ at loop
  by_cases zero : minValue = 0
  · subst zero
    obtain ⟨rfl, rfl, _⟩ := loop
    rw [upTo_zero]
    exact ⟨rfl, rfl, by norm_num⟩
  have room : (h.utxos.entries ++ available).length < h.noLimit := by
    rw [length_append, noLimit]
    omega
  have answer := (@getValueForOwner_ok_iff owner h h.noLimit [] h.utxos.entries minValue available
    (upTo minValue (h.utxos.entries ++ available)) _ spent answers (by omega) rfl
      (by rw [worth_nil]; omega) list
    (by rw [worth_nil, Nat.sub_zero, page_noLimit room])).mp single
  rw [worth_nil, Nat.zero_add, Prod.mk.injEq, Prod.mk.injEq] at answer
  obtain ⟨fits, rfl, rfl, _⟩ := answer
  exact ⟨rfl, rfl, fits⟩

def MaxCount : ℕ := 256

/-- The pages list what a single call lists, unless a full page ends where the value is reached, or
among the deposits and before the end of the list. -/
theorem pages_complete_iff {spent : Bytes32 → Bool} (answers : ∀ id, h.isSpent id = .ok (spent id))
    (single : h.getValueForOwner h.noLimit minValue none = .ok (listed, total, token)) :
    h.Lists MaxCount minValue none listed ↔
      Breaks MaxCount (minValue ≤ total) (upTo minValue h.utxos.entries).length listed.length := by
  obtain ⟨rfl, rfl, fits⟩ := single_call answers rfl single
  have count : ∀ entries : List ValueEntry, (ids entries).length = entries.length :=
    fun _ => length_map _
  rw [count]
  by_cases zero : minValue = 0
  · subst zero
    rw [upTo_zero] at single ⊢
    have answer : h.getValueForOwner MaxCount 0 none = .ok ([], 0, none) :=
      bind_ok_iff.mpr ⟨0, rfl, if_pos (.inl le_rfl)⟩
    exact iff_of_true ((lists_of_last answer).mpr rfl) (breaks_small (by decide))
  · have result := @lists_iff_at owner h MaxCount _ [] minValue
      (upTo minValue (h.utxos.entries ++ h.deposits.entries.filter fun entry =>
        !spent entry.utxoID)) spent answers
      (by decide) rfl h.utxos.entries rfl (by rw [worth_nil]; omega)
        (by rw [worth_nil, Nat.sub_zero])
      (by rwa [worth_nil, Nat.zero_add])
    rwa [worth_nil, Nat.zero_add, Nat.sub_zero] at result

def sampleCoin (i : ℕ) : ValueEntry := ⟨1, BitVec.ofNat 256 i, sampleSmall.word⟩

def sampleCoins (count : ℕ) : List ValueEntry := (List.range count).map sampleCoin

private theorem sampleCoins_sorted (few : count ≤ 2 ^ 256) :
    (sampleCoins count).Pairwise fun a b => rank utxoSpace sampleHolder a <
      rank utxoSpace sampleHolder b := by
  rw [sampleCoins, pairwise_map]
  refine pairwise_lt_range.imp_of_mem fun {i j} _ listed below => ?_
  have bound := mem_range.mp listed
  simp only [rank_eq, sampleCoin, BitVec.toNat_ofNat, Nat.mod_eq_of_lt (show i < 2 ^ 256 by omega),
    Nat.mod_eq_of_lt (show j < 2 ^ 256 by omega)]
  omega

theorem upTo_sampleCoins (count : ℕ) :
    upTo count (sampleCoins count) = sampleCoins count ∧ worth (sampleCoins count) = count := by
  induction count with
  | zero => exact ⟨upTo_zero _, rfl⟩
  | succ count ih =>
    have grown : sampleCoins (count + 1) = sampleCoins count ++ [sampleCoin count] := by
      rw [sampleCoins, range_succ, map_append]
      rfl
    rw [grown, upTo_append, upTo_of_worth_lt (by rw [ih.2]; omega), worth_append, ih.2,
      Nat.add_sub_cancel_left]
    exact ⟨rfl, rfl⟩

def sampleWallet (count : ℕ) (few : count ≤ 2 ^ 256) : Holdings sampleHolder where
  utxos := ⟨sampleCoins count, sampleCoins_sorted few⟩
  deposits := ⟨[], .nil⟩
  isSpent := fun _ => .ok false

theorem sampleWallet_call (few : count < 2 ^ 256) (some : 0 < count) (room : 0 < maxCount)
    (most : count ≤ maxCount) :
    (sampleWallet count few.le).getValueForOwner maxCount count none = .ok (ids (sampleCoins count),
      count,
      tokenAfter sampleHolder maxCount count 0 (if maxCount ≤ count then .utxo else .deposit)
        (sampleCoins count)) := by
  obtain ⟨all, sum⟩ := upTo_sampleCoins count
  have size : (sampleCoins count).length = count := by rw [sampleCoins, length_map, length_range]
  have answer :=
    (@getValueForOwner_ok_iff sampleHolder (sampleWallet count few.le) maxCount []
    (sampleCoins count) count []
    (sampleCoins count) _ (fun _ => false) (fun _ => rfl) room rfl some rfl
    (by rw [worth_nil, Nat.sub_zero, append_nil, page, all, take_of_length_le (by omega)])).mpr
    ⟨by rw [worth_nil, sum]; omega, rfl⟩
  rwa [worth_nil, Nat.sub_zero, Nat.zero_add, all, sum, size] at answer

theorem sampleWallet_single (few : count < 2 ^ 256) (some : 0 < count) :
    (sampleWallet count few.le).getValueForOwner (sampleWallet count few.le).noLimit count none =
      .ok (ids (sampleCoins count), count, none) := by
  have size : (sampleCoins count).length = count := by rw [sampleCoins, length_map, length_range]
  have limit : (sampleWallet count few.le).noLimit = count + 1 := by
    show (sampleCoins count).length + 0 + 1 = _
    rw [size]
  rw [limit, sampleWallet_call few some (by omega) (by omega), tokenAfter_room (by omega)]

theorem pages_complete_coins :
    (sampleWallet 300 (by norm_num)).Lists MaxCount 300 none (ids (sampleCoins 300)) := by
  have size : (sampleCoins 300).length = 300 := by rw [sampleCoins, length_map, length_range]
  refine (pages_complete_iff (fun _ => rfl) (sampleWallet_single (by norm_num) (by decide))).mpr ?_
  show Breaks MaxCount _ (upTo 300 (sampleCoins 300)).length _
  rw [(upTo_sampleCoins 300).1, ids, length_map, size]
  exact ⟨fun _ _ => by decide, fun _ => Nat.le_of_lt⟩

/-- The last coin of a full page reaches the value: the token cannot be decoded. -/
theorem full_page_undecodable : ∃ h : Holdings sampleHolder, ∃ listed,
    h.getValueForOwner h.noLimit 256 none = .ok (listed, 256, none) ∧
      ¬h.Lists MaxCount 256 none listed := by
  obtain ⟨_, sum⟩ := upTo_sampleCoins 256
  have size : (sampleCoins 256).length = MaxCount := by rw [sampleCoins, length_map, length_range,
    MaxCount]
  have answer := @sampleWallet_call 256 MaxCount (by norm_num) (by decide) (by decide) le_rfl
  rw [tokenAfter_reached size (by rw [sum]), sum] at answer
  exact ⟨sampleWallet 256 (by norm_num), _, sampleWallet_single (by norm_num) (by decide),
    not_lists_of_no_key answer⟩

end Holdings

end AliceNet.Application
