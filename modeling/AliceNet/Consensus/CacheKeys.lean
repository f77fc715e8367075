import AliceNet.Consensus.Objects
import AliceNet.Library.Bytes
import AliceNet.Library.PrefixScan

/-! The keys of cached transactions and of historic round states, joined by a separator. -/

namespace AliceNet.Consensus

open Outcome List Function

def separator : UInt8 := 0x7c

def marshalUint32 (v : UInt32) : Bytes := Bytes.bigEndian 4 v.toNat

def unmarshalUint32 (v : Bytes) : Except Fault UInt32 := do
  require (v.length = 4) (.invalid "UnmarshalUint32: invalid byte length; should be 4")
  pure (UInt32.ofNat (Bytes.value v))

def hexDigit (n : ℕ) : UInt8 := UInt8.ofNat (if n < 10 then 48 + n else 87 + n)

def fromHexChar (c : UInt8) : Except Fault ℕ :=
  if 48 ≤ c ∧ c ≤ 57 then pure (c.toNat - 48)
  else if 97 ≤ c ∧ c ≤ 102 then pure (c.toNat - 87)
  else if 65 ≤ c ∧ c ≤ 70 then pure (c.toNat - 55)
  else throw (.other "encoding/hex: invalid byte")

def hexEncode (bytes : Bytes) : Bytes :=
  bytes.flatMap fun byte => [hexDigit (byte.toNat / 16), hexDigit (byte.toNat % 16)]

def hexDecode : Bytes → Except Fault Bytes
  | [] => pure []
  | [_] => throw (.other "encoding/hex: odd length hex string")
  | high :: low :: rest => do
    let byte := 16 * (← fromHexChar high) + (← fromHexChar low)
    pure (UInt8.ofNat byte :: (← hexDecode rest))

structure TxCacheKey where
  dbPrefix : Bytes
  height : UInt32
  txHash : Bytes
  deriving DecidableEq

namespace TxCacheKey

def marshalBinary (b : TxCacheKey) : Except Fault Bytes := do
  require (b.height ≠ 0) (.invalid "TxCacheKey.MarshalBinary; height is zero")
  require (b.txHash.length = 32) (.invalid "TxCacheKey.MarshalBinary; incorrect txhash length")
  pure (b.dbPrefix ++ separator :: marshalUint32 b.height ++ separator :: b.txHash)

def unmarshalBinary (data : Bytes) : Except Fault TxCacheKey :=
  match data.splitOn separator with
  | [dbPrefix, heightBytes, txHash] => do
    let height ← unmarshalUint32 heightBytes
    require (height ≠ 0) (.invalid "TxCacheKey.UnmarshalBinary; height is zero")
    require (txHash.length = 32) (.invalid "TxCacheKey.UnmarshalBinary; incorrect txhash length")
    pure ⟨dbPrefix, height, txHash⟩
  | _ => throw .corrupt

def makeIterKey (dbPrefix : Bytes) (height : UInt32) : Except Fault Bytes := do
  require (height ≠ 0) (.invalid "TxCacheKey.MakeIterKey; height is zero")
  pure (dbPrefix ++ separator :: marshalUint32 height ++ [separator])

end TxCacheKey

structure RoundStateHistoricKey where
  dbPrefix : Bytes
  height : UInt32
  round : UInt32
  vAddr : Bytes

namespace RoundStateHistoricKey

def marshalBinary (b : RoundStateHistoricKey) : Except Fault Bytes := do
  require (b.height ≠ 0) (.invalid "RoundStateHistoricKey.MarshalBinary; height is zero")
  require (b.round ≠ 0) (.invalid "RoundStateHistoricKey.MarshalBinary; round is zero")
  require (b.round.toNat ≤ DEADBLOCKROUND)
    (.invalid "RoundStateHistoricKey.MarshalBinary; round > DBR")
  pure (b.dbPrefix ++ separator :: marshalUint32 b.height ++ separator :: marshalUint32 b.round ++
    separator :: hexEncode b.vAddr)

def unmarshalBinary (data : Bytes) : Except Fault RoundStateHistoricKey :=
  match data.splitOn separator with
  | [dbPrefix, heightBytes, roundBytes, hex] => do
    let height ← unmarshalUint32 heightBytes
    require (height ≠ 0) (.invalid "RoundStateHistoricKey.UnmarshalBinary; height is zero")
    let round ← unmarshalUint32 roundBytes
    require (round ≠ 0) (.invalid "RoundStateHistoricKey.UnmarshalBinary; round is zero")
    require (round.toNat ≤ DEADBLOCKROUND)
      (.invalid "RoundStateHistoricKey.UnmarshalBinary; round > DBR")
    pure ⟨dbPrefix, height, round, ← hexDecode hex⟩
  | _ => throw .corrupt

def makeIterKey (dbPrefix : Bytes) (height : UInt32) : Except Fault Bytes := do
  require (height ≠ 0) (.invalid "RoundStateHistoricKey.MarshalBinary; height is zero")
  pure (dbPrefix ++ separator :: marshalUint32 height ++ [separator])

end RoundStateHistoricKey

def PrefixTxCache : Bytes := [0x61, 0x78]
def PrefixHistoricRoundState : Bytes := [0x61, 0x63]

abbrev RawDB := KeyStore UInt8 Bytes

namespace RawDB

def setTxCacheItem (db : RawDB) (height : UInt32) (txHash tx : Bytes) : Except Fault RawDB := do
  pure (db.set (← (TxCacheKey.mk PrefixTxCache height txHash).marshalBinary) tx)

/-- The transactions that are found, each with its hash. -/
def collectTxs (height : UInt32) : List (Bytes × Bytes) → Except Fault (List (Bytes × Bytes))
  | [] => pure []
  | (k, tx) :: rest => do
    let key ← TxCacheKey.unmarshalBinary k
    let others ← collectTxs height rest
    pure (if key.height = height then (tx, key.txHash) :: others else others)

def getTxCacheSet (db : RawDB) (height : UInt32) : Except Fault (List (Bytes × Bytes)) := do
  collectTxs height (db.scan (← TxCacheKey.makeIterKey PrefixTxCache height))

/-- The keys that `TxCacheDropBefore` collects. -/
def keysToDrop (beforeHeight : UInt32) (maxKeys : ℕ) : List Bytes → (keys : List Bytes) → List Bytes
  | [], keys => keys
  | k :: rest, keys =>
    match TxCacheKey.unmarshalBinary k with
    | .error _ => keysToDrop beforeHeight maxKeys rest (keys ++ [k])
    | .ok key =>
      if beforeHeight < key.height then keys
      else
        let keys := if key.height < beforeHeight then keys ++ [k] else keys
        if maxKeys ≤ keys.length then keys else keysToDrop beforeHeight maxKeys rest keys

def txCacheDropBefore (db : RawDB) (beforeHeight : UInt32) (maxKeys : ℕ) : Except Fault RawDB := do
  let front ← TxCacheKey.makeIterKey PrefixTxCache beforeHeight
  pure (db.delete (keysToDrop beforeHeight maxKeys ((db.scan front).map Prod.fst) []))

/-- At least one key is taken, also if `maxnum` is smaller. -/
def deleteBeforeHistoricRoundState (db : RawDB) (height : UInt32) (maxnum : ℕ) :
    Except Fault RawDB := do
  let front ← RoundStateHistoricKey.makeIterKey PrefixHistoricRoundState height
  pure (db.delete (((db.scan front).map Prod.fst).take (max maxnum 1)))

end RawDB

variable {db : RawDB} {stored : UInt32 × Bytes → Option Bytes} {height : UInt32}
  {tag txHash tail key : Bytes}

private theorem length_splitOn (sep : UInt8) (data : Bytes) :
    (data.splitOn sep).length = data.count sep + 1 := by
  rw [splitOn]
  induction data with
  | nil => rfl
  | cons byte rest ih =>
    rw [splitOnP_cons_eq_if_modifyHead, count_cons]
    split
    · rw [length_cons, ih]
    · rw [length_modifyHead, ih]

theorem unmarshalUint32_marshal (v : UInt32) : unmarshalUint32 (marshalUint32 v) = .ok v := by
  have value : Bytes.value (marshalUint32 v) = v.toNat := by
    rw [marshalUint32, Bytes.value_bigEndian]
    exact Nat.mod_eq_of_lt v.toNat_lt
  have length : (marshalUint32 v).length = 4 := Bytes.length_bigEndian 4 _
  rw [unmarshalUint32, require_of length, value]
  exact congrArg Except.ok (UInt32.ofNat_toNat)

private theorem marshalUint32_injective : Function.Injective marshalUint32 := by
  intro v w same
  have decoded := unmarshalUint32_marshal v
  rw [same, unmarshalUint32_marshal] at decoded
  exact (Except.ok.inj decoded).symm

theorem hexDigit_decodes :
    ∀ byte : UInt8, fromHexChar (hexDigit (byte.toNat / 16)) = .ok (byte.toNat / 16) ∧
    fromHexChar (hexDigit (byte.toNat % 16)) = .ok (byte.toNat % 16) ∧ separator ≠
      hexDigit (byte.toNat / 16) ∧
      separator ≠ hexDigit (byte.toNat % 16) := by
  decide +kernel

private theorem hexDecode_encode (bytes : Bytes) : hexDecode (hexEncode bytes) = .ok bytes := by
  induction bytes with
  | nil => rfl
  | cons byte rest ih =>
    obtain ⟨high, low, _⟩ := hexDigit_decodes byte
    rw [hexEncode, flatMap_cons, ← hexEncode, cons_append, cons_append, nil_append, hexDecode, high,
      low, ih]
    show Except.ok (UInt8.ofNat (16 * (byte.toNat / 16) + byte.toNat % 16) :: rest) = _
    rw [Nat.div_add_mod, UInt8.ofNat_toNat]

private theorem separator_notMem_hexEncode : separator ∉ hexEncode bytes := by
  intro mem
  obtain ⟨byte, _, digit⟩ := mem_flatMap.mp mem
  obtain ⟨_, _, high, low⟩ := hexDigit_decodes byte
  simp only [mem_cons, not_mem_nil, or_false] at digit
  exact digit.elim high low

private theorem separator_notMem_round {round : UInt32} (bounded : round.toNat ≤ DEADBLOCKROUND) :
    separator ∉ marshalUint32 round := by
  have small : ∀ n ≤ DEADBLOCKROUND, separator ∉ Bytes.bigEndian 4 n := by decide
  exact small _ bounded

def keyFront (tag : Bytes) (height : UInt32) : Bytes :=
    tag ++ separator :: marshalUint32 height ++ [separator]

theorem keyFront_append_inj (same : keyFront tag height ++ tail = keyFront tag height' ++ tail') :
    height = height' ∧ tail = tail' := by
  obtain ⟨fronts, tails⟩ := append_inj same (by simp [keyFront, marshalUint32])
  simp only [keyFront, append_left_inj, append_right_inj, cons.injEq, true_and] at fronts
  exact ⟨marshalUint32_injective fronts, tails⟩

theorem keyFront_apart (height height' : UInt32) (tail tail' : Bytes) :
    keyFront PrefixTxCache height ++ tail ≠ keyFront PrefixHistoricRoundState height' ++ tail' := by
  simp [keyFront, PrefixTxCache, PrefixHistoricRoundState]

theorem TxCacheKey.makeIterKey_eq (pos : height ≠ 0) :
    makeIterKey tag height = .ok (keyFront tag height) := by
  rw [makeIterKey, require_of pos]
  rfl

def cacheKey (height : UInt32) (txHash : Bytes) : Bytes := keyFront PrefixTxCache height ++ txHash

theorem marshal_cacheKey (pos : height ≠ 0) (length : txHash.length = 32) :
    (TxCacheKey.mk PrefixTxCache height txHash).marshalBinary = .ok (cacheKey height txHash) := by
  simp only [TxCacheKey.marshalBinary, ok_iff']
  exact ⟨pos, length, by simp [cacheKey, keyFront]⟩

theorem unmarshal_cacheKey_iff {key : TxCacheKey} :
    TxCacheKey.unmarshalBinary (cacheKey height tail) = .ok key ↔
      separator ∉ marshalUint32 height ++ tail ∧
      height ≠ 0 ∧ tail.length = 32 ∧ key = ⟨PrefixTxCache, height, tail⟩ := by
  have joined : cacheKey height tail = [separator].intercalate [PrefixTxCache, marshalUint32 height,
      tail] := by
    simp [cacheKey, keyFront, intercalate]
  have front : PrefixTxCache.count separator = 0 := by decide
  by_cases apart : separator ∉ marshalUint32 height ++ tail
  · have parts : ∀ part ∈ [PrefixTxCache, marshalUint32 height, tail], separator ∉ part := by
      rw [mem_append, not_or] at apart
      simp only [forall_mem_cons]
      exact ⟨count_eq_zero.mp front, apart.1, apart.2, by simp⟩
    rw [TxCacheKey.unmarshalBinary, joined, splitOn_intercalate separator parts (by simp)]
    simp only [unmarshalUint32_marshal, ok_iff', Except.ok.injEq, exists_eq_left', apart,
      not_false_iff, true_and]
    exact and_congr_right fun _ => and_congr_right fun _ => eq_comm
  · refine iff_of_false (fun decoded => apart ?_) fun both => apart both.1
    have parts := length_splitOn separator (cacheKey height tail)
    unfold TxCacheKey.unmarshalBinary at decoded
    split at decoded
    · rename_i split
      rw [split, cacheKey, keyFront] at parts
      simp only [count_append, count_cons_self, count_nil, length_cons, length_nil, front] at parts
      rw [← count_eq_zero, count_append]
      omega
    · cases decoded

theorem RoundStateHistoricKey.unmarshal_marshal {b : RoundStateHistoricKey}
    (known : b.dbPrefix = PrefixHistoricRoundState) (height : b.height ≠ 0) (round : b.round ≠ 0)
    (bounded : b.round.toNat ≤ DEADBLOCKROUND) (apart : separator ∉ marshalUint32 b.height) :
    (b.marshalBinary >>= unmarshalBinary) = .ok b := by
  have joined : b.dbPrefix ++ separator :: marshalUint32 b.height ++ separator ::
      marshalUint32 b.round ++
      separator :: hexEncode b.vAddr = [separator].intercalate [b.dbPrefix, marshalUint32 b.height,
        marshalUint32 b.round, hexEncode b.vAddr] := by
    simp [intercalate]
  have apart : ∀ part ∈ [b.dbPrefix, marshalUint32 b.height, marshalUint32 b.round,
      hexEncode b.vAddr], separator ∉ part := by
    simp only [forall_mem_cons, known]
    exact ⟨by decide, apart, separator_notMem_round bounded, separator_notMem_hexEncode, by simp⟩
  rw [marshalBinary, require_of height, require_of round, require_of bounded, joined]
  show unmarshalBinary _ = _
  rw [unmarshalBinary, splitOn_intercalate separator apart (by simp)]
  simp only [unmarshalUint32_marshal, hexDecode_encode, ok_iff', Except.ok.injEq, exists_eq_left']
  exact ⟨height, round, bounded, trivial⟩

structure CacheItem where
  height : UInt32
  txHash : Bytes
  tx : Bytes

def cached (calls : List CacheItem) : UInt32 × Bytes → Option Bytes :=
  calls.foldl (fun stored call => if call.height ≠ 0 ∧ call.txHash.length = 32 then
    Function.update stored (call.height, call.txHash) (some call.tx) else stored) fun _ => none

namespace RawDB

/-- A call that is refused leaves the database as it is. -/
def setTxCacheItems (db : RawDB) (calls : List CacheItem) : RawDB :=
  calls.foldl (fun db call => (db.setTxCacheItem call.height call.txHash call.tx).toOption.getD db)
    db

private theorem setTxCacheItem_eq (db : RawDB) (height : UInt32) (txHash tx : Bytes) :
    (db.setTxCacheItem height txHash tx).toOption.getD db =
      if height ≠ 0 ∧ txHash.length = 32 then db.set (cacheKey height txHash) tx else db := by
  split
  · rename_i storable
    rw [setTxCacheItem, marshal_cacheKey storable.1 storable.2]
    rfl
  · rename_i refused
    cases outcome : db.setTxCacheItem height txHash tx with
    | error => rfl
    | ok db' =>
      simp only [setTxCacheItem, TxCacheKey.marshalBinary, ok_iff'] at outcome
      obtain ⟨_, ⟨pos, length, _⟩, _⟩ := outcome
      exact absurd ⟨pos, length⟩ refused

/-- The keys of the cache hold these transactions. -/
def Holds (db : RawDB) (stored : UInt32 × Bytes → Option Bytes) : Prop :=
  ∀ entry, PrefixTxCache <+: entry.1 → (entry ∈ db.entries ↔ ∃ height txHash, height ≠ 0 ∧
    txHash.length = 32 ∧ entry.1 = cacheKey height txHash ∧ stored (height, txHash) = some entry.2)

theorem Holds.set (tx : Bytes) (holds : db.Holds stored) (pos : height ≠ 0)
    (length : txHash.length = 32) :
    RawDB.Holds (db.set (cacheKey height txHash) tx) (Function.update stored (height, txHash)
      (some tx)) := by
  intro entry starts
  rw [KeyStore.mem_set, holds entry starts]
  constructor
  · rintro (rfl | ⟨⟨other, hash, pos, length, same, found⟩, apart⟩)
    · exact ⟨height, txHash, pos, length, rfl, by rw [update_self]⟩
    · refine ⟨other, hash, pos, length, same, ?_⟩
      rwa [update_of_ne]
      rintro ⟨⟩
      exact apart same
  · rintro ⟨other, hash, pos, length, same, found⟩
    by_cases own : (other, hash) = (height, txHash)
    · cases own
      rw [update_self, Option.some.injEq] at found
      exact .inl (Prod.ext same found.symm)
    · rw [update_of_ne own] at found
      refine .inr ⟨⟨other, hash, pos, length, same, found⟩, fun equal => own ?_⟩
      obtain ⟨rfl, rfl⟩ := keyFront_append_inj (same.symm.trans equal)
      rfl

theorem holds_cached (unused : ∀ entry ∈ db.entries, ¬ PrefixTxCache <+: entry.1)
    (calls : List CacheItem) : (db.setTxCacheItems calls).Holds (cached calls) := by
  induction calls using reverseRecOn with
  | nil =>
    exact fun entry starts => iff_of_false (fun listed => unused entry listed starts)
      (by simp [cached])
  | append_singleton calls call ih =>
    have last : db.setTxCacheItems (calls ++ [call]) =
        ((db.setTxCacheItems calls).setTxCacheItem call.height call.txHash
        call.tx).toOption.getD (db.setTxCacheItems calls) := foldl_append ..
    rw [last, setTxCacheItem_eq, cached, foldl_append, ← cached, foldl_cons, foldl_nil]
    split
    · rename_i storable
      exact ih.set call.tx storable.1 storable.2
    · exact ih

theorem mem_scan_iff {entry : Bytes × Bytes} :
    entry ∈ db.scan (keyFront tag height) ↔ entry ∈ db.entries ∧ ∃ tail,
      entry.1 = keyFront tag height ++ tail := by
  rw [KeyStore.scan_eq_filter, mem_filter, isPrefixOf_iff_prefix]
  exact and_congr_right fun _ => exists_congr fun _ => eq_comm

theorem Holds.mem_scan_iff (holds : db.Holds stored) {entry : Bytes × Bytes} :
    entry ∈ db.scan (keyFront PrefixTxCache height) ↔ height ≠ 0 ∧ ∃ txHash, txHash.length = 32 ∧
      entry.1 = cacheKey height txHash ∧ stored (height, txHash) = some entry.2 := by
  rw [RawDB.mem_scan_iff]
  have starts : ∀ {height tail}, entry.1 = keyFront PrefixTxCache height ++ tail →
      PrefixTxCache <+: entry.1 := by
    intro height tail same
    rw [same, keyFront, append_assoc, append_assoc]
    exact prefix_append _ _
  constructor
  · rintro ⟨listed, tail, begins⟩
    obtain ⟨other, txHash, pos, length, same, found⟩ := (holds entry (starts begins)).mp listed
    obtain ⟨rfl, rfl⟩ := keyFront_append_inj (begins.symm.trans same)
    exact ⟨pos, _, length, same, found⟩
  · rintro ⟨pos, txHash, length, same, found⟩
    exact ⟨(holds entry (starts same)).mpr ⟨height, txHash, pos, length, same, found⟩, txHash, same⟩

theorem drop_cacheKey (same : key = cacheKey height txHash) : key.drop 8 = txHash := by
  have front : (keyFront PrefixTxCache height).length = 8 := by simp [keyFront, marshalUint32,
    PrefixTxCache]
  rw [same, cacheKey, ← front, drop_left]

private theorem collectTxs_ok_iff {entries found : List (Bytes × Bytes)}
    (keys : ∀ entry ∈ entries, height ≠ 0 ∧ ∃ txHash, txHash.length = 32 ∧
      entry.1 = cacheKey height txHash) :
    collectTxs height entries = .ok found ↔
      (∀ entry ∈ entries, separator ∉ marshalUint32 height ++ entry.1.drop 8) ∧
      found = entries.map fun entry => (entry.2, entry.1.drop 8) := by
  induction entries generalizing found with
  | nil => simp [collectTxs, pure, Except.pure, eq_comm]
  | cons entry rest ih =>
    rw [forall_mem_cons] at keys
    obtain ⟨⟨pos, txHash, length, same⟩, others⟩ := keys
    simp only [collectTxs, ok_iff, ih others, same, unmarshal_cacheKey_iff, forall_mem_cons,
      map_cons]
    constructor
    · rintro ⟨_, ⟨apart, _, _, rfl⟩, _, ⟨aparts, rfl⟩, rfl⟩
      exact ⟨⟨apart, aparts⟩, if_pos rfl⟩
    · rintro ⟨⟨apart, aparts⟩, rfl⟩
      exact ⟨_, ⟨apart, pos, length, rfl⟩, _, ⟨aparts, rfl⟩, if_pos rfl⟩

theorem Holds.getTxCacheSet_iff (holds : db.Holds stored)
    (filed : ∀ slot, stored slot ≠ none → slot.2.length = 32) (pos : height ≠ 0) :
    (∃ found, db.getTxCacheSet height = .ok found ∧ (found.map Prod.snd).Nodup ∧
      ∀ tx txHash, (tx, txHash) ∈ found ↔ stored (height, txHash) = some tx) ↔
    ∀ txHash, stored (height, txHash) ≠ none → separator ∉ marshalUint32 height ++ txHash := by
  have visited (entry : Bytes × Bytes) := @Holds.mem_scan_iff db stored height holds entry
  have listed : ∀ {txHash tx}, stored (height, txHash) = some tx →
      (cacheKey height txHash, tx) ∈ db.scan (keyFront PrefixTxCache height) := fun found =>
    (visited _).mpr ⟨pos, _, filed _ (found ▸ Option.some_ne_none _), rfl, found⟩
  have keys : ∀ entry ∈ db.scan (keyFront PrefixTxCache height), height ≠ 0 ∧ ∃ txHash,
      txHash.length = 32 ∧ entry.1 = cacheKey height txHash := by
    intro entry listed
    obtain ⟨pos, txHash, length, same, _⟩ := (visited _).mp listed
    exact ⟨pos, txHash, length, same⟩
  simp only [getTxCacheSet, TxCacheKey.makeIterKey_eq pos, bind_ok_iff, Except.ok.injEq,
    exists_eq_left', collectTxs_ok_iff keys]
  constructor
  · rintro ⟨_, ⟨aparts, _⟩, _⟩ txHash found
    obtain ⟨tx, found⟩ := Option.ne_none_iff_exists'.mp found
    have apart := aparts _ (listed found)
    rwa [drop_cacheKey rfl] at apart
  · intro aparts
    refine ⟨_, ⟨fun entry listed => ?_, rfl⟩, ?_, fun tx txHash => ?_⟩
    · obtain ⟨_, txHash, _, same, found⟩ := (visited _).mp listed
      rw [drop_cacheKey same]
      exact aparts txHash (found ▸ Option.some_ne_none _)
    · have keys : ((db.scan (keyFront PrefixTxCache height)).map fun entry => entry.1.drop 8).map
        (cacheKey height) =
          (db.scan (keyFront PrefixTxCache height)).map Prod.fst := by
        rw [map_map]
        refine map_congr_left fun entry listed => ?_
        obtain ⟨_, txHash, _, same, _⟩ := (visited _).mp listed
        rw [comp_apply, drop_cacheKey same, same]
      rw [map_map]
      refine Nodup.of_map (cacheKey height) (keys ▸ ?_)
      rw [KeyStore.scan_eq_filter]
      exact (db.sorted.filter _).map _ fun a b less same => List.lt_irrefl _ (same ▸ less)
    · simp only [mem_map, Prod.mk.injEq]
      constructor
      · rintro ⟨entry, listed, rfl, rfl⟩
        obtain ⟨_, txHash, _, same, found⟩ := (visited _).mp listed
        rwa [drop_cacheKey same]
      · exact fun found => ⟨_, listed found, rfl, drop_cacheKey rfl⟩

theorem length_of_cached (found : cached calls slot ≠ none) : slot.2.length = 32 := by
  induction calls using reverseRecOn with
  | nil => exact absurd rfl found
  | append_singleton calls call ih =>
    rw [cached, foldl_append, ← cached, foldl_cons, foldl_nil] at found
    split at found
    · rename_i storable
      by_cases own : slot = (call.height, call.txHash)
      · exact own ▸ storable.2
      · rw [update_of_ne own] at found
        exact ih found
    · exact ih found

end RawDB

/-- Keys are decoded, and the set of a height is found, if and only if no height and no hash
contains the separator. -/
theorem cacheKeys_decode_iff (height : UInt32) (pos : height ≠ 0) :
    (∀ (round : UInt32) (vAddr txHash : Bytes), round ≠ 0 → round.toNat ≤ DEADBLOCKROUND →
      txHash.length = 32 →
      (((TxCacheKey.mk PrefixTxCache height txHash).marshalBinary >>= TxCacheKey.unmarshalBinary) =
          .ok ⟨PrefixTxCache, height, txHash⟩ ∧
        ((RoundStateHistoricKey.mk PrefixHistoricRoundState height round vAddr).marshalBinary >>=
          RoundStateHistoricKey.unmarshalBinary) = .ok ⟨PrefixHistoricRoundState, height, round,
            vAddr⟩ ↔
        separator ∉ marshalUint32 height ++ txHash)) ∧
    ∀ (db : RawDB) (calls : List CacheItem), (∀ entry ∈ db.entries, ¬ PrefixTxCache <+: entry.1) →
      ((∃ found, (db.setTxCacheItems calls).getTxCacheSet height = .ok found ∧
        (found.map Prod.snd).Nodup ∧
          ∀ tx txHash, (tx, txHash) ∈ found ↔ cached calls (height, txHash) = some tx) ↔
        ∀ txHash, cached calls (height, txHash) ≠ none → separator ∉ marshalUint32 height ++
          txHash) := by
  refine ⟨fun round vAddr txHash started bounded length => ?_, fun db calls unused => ?_⟩
  · have decoded :
      ((TxCacheKey.mk PrefixTxCache height txHash).marshalBinary >>= TxCacheKey.unmarshalBinary) =
        TxCacheKey.unmarshalBinary (cacheKey height txHash) := by
      rw [marshal_cacheKey pos length]
      rfl
    rw [decoded, unmarshal_cacheKey_iff]
    refine ⟨fun both => both.1.1, fun apart => ⟨⟨apart, pos, length, rfl⟩, ?_⟩⟩
    exact RoundStateHistoricKey.unmarshal_marshal rfl pos started bounded
      fun inside => apart (mem_append_left _ inside)
  · exact (RawDB.holds_cached unused calls).getTxCacheSet_iff (fun slot => RawDB.length_of_cached)
      pos

def sampleItems : List CacheItem :=
  [⟨1, replicate 32 0, [1]⟩, ⟨2, replicate 32 0, [2]⟩, ⟨1, replicate 32 5, [3]⟩]

/-- Two of three transactions are of the height. -/
theorem cacheKeys_decode_one : ∃ found,
    (RawDB.setTxCacheItems ⟨[], .nil⟩ sampleItems).getTxCacheSet 1 = .ok found ∧
      (found.map Prod.snd).Nodup ∧ ([1], replicate 32 0) ∈ found ∧ ([3], replicate 32 5) ∈
        found := by
  have stored := (cacheKeys_decode_iff 1 (by decide)).2 ⟨[], .nil⟩ sampleItems (by simp)
  obtain ⟨found, answer, nodup, listed⟩ := stored.mpr fun txHash present => by
    by_cases first : txHash = replicate 32 0
    · subst first
      decide
    · by_cases second : txHash = replicate 32 5
      · subst second
        decide
      · exact absurd (by simp [cached, sampleItems, update, first, second, -reduceReplicate])
          present
  exact ⟨found, answer, nodup, (listed _ _).mpr (by decide), (listed _ _).mpr (by decide)⟩

/-- The last byte of the height 124 is the separator. -/
theorem cacheKeys_lost :
    ((TxCacheKey.mk PrefixTxCache 124 (List.replicate 32 0)).marshalBinary >>=
      TxCacheKey.unmarshalBinary) =
        .error .corrupt ∧
      (RawDB.setTxCacheItems ⟨[], .nil⟩ [⟨124, List.replicate 32 0, [1]⟩]).getTxCacheSet 124 =
        .error .corrupt := by
  decide +kernel

namespace RawDB

def keys (db : RawDB) : List Bytes := db.entries.map Prod.fst

def Prunes (db db' : RawDB) (old : Bytes → Prop) (limit : ℕ) : Prop :=
  ∃ gone : List Bytes, gone.Nodup ∧ (∀ key ∈ gone, key ∈ db.keys ∧ old key) ∧
    gone.length = min limit {key | key ∈ db.keys ∧ old key}.ncard ∧ db'.entries =
      db.entries.filter (·.1 ∉ gone)

theorem prunes_delete_iff (pos : 1 ≤ limit) (stored : ∀ key ∈ dropped, key ∈ db.keys ∧ ¬ old key) :
    db.Prunes (db.delete dropped) old limit ↔ (∀ key ∈ db.keys, ¬ old key) ∧ dropped = [] := by
  constructor
  · rintro ⟨gone, _, olds, count, same⟩
    have agree : ∀ key ∈ db.keys, key ∈ gone ↔ key ∈ dropped := by
      intro key listed
      obtain ⟨entry, mem, rfl⟩ := mem_map.mp listed
      have kept := congrArg (entry ∈ ·) same
      simp only [KeyStore.delete, mem_filter, mem, true_and, decide_eq_true_eq, eq_iff_iff] at kept
      exact (not_iff_not.mp kept).symm
    have none : gone = [] := eq_nil_iff_forall_not_mem.mpr fun key mem =>
      (stored key ((agree key (olds key mem).1).mp mem)).2 (olds key mem).2
    subst none
    have finite : {key | key ∈ db.keys ∧ old key}.Finite :=
      (finite_toSet db.keys).subset fun key both => both.1
    have empty : {key | key ∈ db.keys ∧ old key} = ∅ := by
      rw [← Set.ncard_eq_zero finite]
      rw [length_nil] at count
      omega
    refine ⟨fun key listed aged => Set.eq_empty_iff_forall_notMem.mp empty key ⟨listed, aged⟩, ?_⟩
    exact eq_nil_iff_forall_not_mem.mpr fun key mem =>
      not_mem_nil ((agree key (stored key mem).1).mpr mem)
  · rintro ⟨fresh, rfl⟩
    have empty : {key | key ∈ db.keys ∧ old key} = ∅ :=
      Set.eq_empty_iff_forall_notMem.mpr fun key both => fresh key both.1 both.2
    exact ⟨[], nodup_nil, by simp, by simp [empty], rfl⟩

theorem mem_keysToDrop {maxKeys : ℕ} {visited keys : List Bytes}
    (mem : key ∈ keysToDrop before maxKeys visited keys) : key ∈ visited ∨ key ∈ keys := by
  fun_induction keysToDrop before maxKeys visited keys <;> grind

private theorem subset_keysToDrop (before : UInt32) (maxKeys : ℕ) (visited keys : List Bytes) :
    keys ⊆ keysToDrop before maxKeys visited keys := by
  fun_induction keysToDrop before maxKeys visited keys <;> grind

theorem keysToDrop_eq_nil_iff (pos : height ≠ 0) (some : 1 ≤ limit)
    (begins : ∀ key ∈ visited, ∃ tail, key = cacheKey height tail) :
    keysToDrop height limit visited [] = [] ↔
      ∀ tail, cacheKey height tail ∈ visited → tail.length = 32 ∧
        separator ∉ marshalUint32 height ++ tail := by
  induction visited with
  | nil => simp [keysToDrop]
  | cons key rest ih =>
    rw [forall_mem_cons] at begins
    obtain ⟨⟨tail, rfl⟩, begins⟩ := begins
    rw [keysToDrop]
    cases decoded : TxCacheKey.unmarshalBinary (cacheKey height tail) with
    | error =>
      refine iff_of_false (fun empty => ?_) fun all => ?_
      · have none : keysToDrop height limit rest [cacheKey height tail] = [] := empty
        have first :=
          subset_keysToDrop height limit rest _ (mem_singleton_self (cacheKey height tail))
        rw [none] at first
        exact not_mem_nil first
      · obtain ⟨length, apart⟩ := all tail mem_cons_self
        rw [unmarshal_cacheKey_iff.mpr ⟨apart, pos, length, rfl⟩] at decoded
        cases decoded
    | ok found =>
      obtain ⟨apart, _, length, rfl⟩ := unmarshal_cacheKey_iff.mp decoded
      have level : ¬ height < height := UInt32.lt_irrefl height
      simp only [if_neg level, length_nil, if_neg (Nat.not_le.mpr some), ih begins]
      refine ⟨fun rest tail' mem => ?_, fun all tail' mem => all tail' (mem_cons_of_mem _ mem)⟩
      rcases mem_cons.mp mem with same | mem
      · obtain ⟨_, rfl⟩ := keyFront_append_inj same
        exact ⟨length, apart⟩
      · exact rest tail' mem

end RawDB

/-- The keys of cached transactions below a height. -/
def CachedBelow (limit : UInt32) (key : Bytes) : Prop :=
  ∃ height txHash, height < limit ∧ (TxCacheKey.mk PrefixTxCache height txHash).marshalBinary =
    .ok key

/-- The keys of historic round states below a height. -/
def HistoricBelow (limit : UInt32) (key : Bytes) : Prop :=
  ∃ height round vAddr, height < limit ∧
    (RoundStateHistoricKey.mk PrefixHistoricRoundState height round vAddr).marshalBinary = .ok key

theorem CachedBelow.begins (below : CachedBelow limit key) :
    ∃ height tail, height < limit ∧ key = keyFront PrefixTxCache height ++ tail := by
  obtain ⟨height, txHash, less, marshalled⟩ := below
  simp only [TxCacheKey.marshalBinary, ok_iff'] at marshalled
  exact ⟨height, txHash, less, by simp [← marshalled.2.2, keyFront]⟩

theorem HistoricBelow.begins (below : HistoricBelow limit key) :
    ∃ height tail, height < limit ∧ key = keyFront PrefixHistoricRoundState height ++ tail := by
  obtain ⟨height, round, vAddr, less, marshalled⟩ := below
  simp only [RoundStateHistoricKey.marshalBinary, ok_iff'] at marshalled
  exact ⟨height, marshalUint32 round ++ separator :: hexEncode vAddr,
    less, by simp [← marshalled.2.2.2, keyFront]⟩

namespace RawDB

theorem mem_visited_iff :
    key ∈ (db.scan (keyFront tag height)).map Prod.fst ↔ key ∈ db.keys ∧ ∃ tail,
      key = keyFront tag height ++ tail := by
  simp only [mem_map, mem_scan_iff, keys]
  constructor
  · rintro ⟨entry, ⟨listed, begins⟩, rfl⟩
    exact ⟨⟨entry, listed, rfl⟩, begins⟩
  · rintro ⟨⟨entry, listed, rfl⟩, begins⟩
    exact ⟨entry, ⟨listed, begins⟩, rfl⟩

private theorem mem_keys_delete :
    key ∈ keys (db.delete dropped) ↔ key ∈ db.keys ∧ key ∉ dropped := by
  simp only [keys, KeyStore.delete, mem_map, mem_filter, decide_eq_true_eq]
  constructor
  · rintro ⟨entry, ⟨listed, kept⟩, rfl⟩
    exact ⟨⟨entry, listed, rfl⟩, kept⟩
  · rintro ⟨⟨entry, listed, rfl⟩, kept⟩
    exact ⟨entry, ⟨listed, kept⟩, rfl⟩

theorem not_below_of_visited {old : Bytes → Prop}
    (begins : ∀ {key}, old key → ∃ other tail, other < height ∧ key = keyFront tag other ++ tail)
    (visited : key ∈ (db.scan (keyFront tag height)).map Prod.fst) : key ∈ db.keys ∧ ¬ old key := by
  obtain ⟨listed, tail, rfl⟩ := mem_visited_iff.mp visited
  refine ⟨listed, fun below => ?_⟩
  obtain ⟨other, tail', less, same⟩ := begins below
  obtain ⟨rfl, _⟩ := keyFront_append_inj same
  exact UInt32.lt_irrefl _ less

end RawDB

/-- The entries of passed heights, of either store. -/
def Below (limit : UInt32) (key : Bytes) : Prop := CachedBelow limit key ∨ HistoricBelow limit key

theorem Below.notMem_visited (below : Below limit key) (reached : limit ≤ height)
    (tagged : tag = PrefixTxCache ∨ tag = PrefixHistoricRoundState) :
    key ∉ (db.scan (keyFront tag height)).map Prod.fst := by
  intro visited
  obtain ⟨_, tail, rfl⟩ := RawDB.mem_visited_iff.mp visited
  have passed : ∀ other < limit, ∀ tail', keyFront tag height ++ tail ≠ keyFront tag other ++
      tail' := by
    intro other less tail' same
    obtain ⟨rfl, _⟩ := keyFront_append_inj same
    exact UInt32.lt_irrefl _ (UInt32.lt_of_lt_of_le less reached)
  rcases below with cached | historic
  · obtain ⟨other, tail', less, same⟩ := cached.begins
    rcases tagged with rfl | rfl
    · exact passed other less tail' same
    · exact keyFront_apart _ _ _ _ same.symm
  · obtain ⟨other, tail', less, same⟩ := historic.begins
    rcases tagged with rfl | rfl
    · exact keyFront_apart _ _ _ _ same
    · exact passed other less tail' same

/-- A write, or a pruning call from a height on. -/
inductive RawDB.Upkeep (floor : UInt32) : RawDB → RawDB → Prop
  | write (db : RawDB) (key value : Bytes) : Upkeep floor db (db.set key value)
  | txCacheDropBefore {db db' : RawDB} {height : UInt32} (reached : floor ≤ height)
      (ran : db.txCacheDropBefore height limit = .ok db') : Upkeep floor db db'
  | deleteBeforeHistoricRoundState {db db' : RawDB} {height : UInt32} (reached : floor ≤ height)
      (ran : db.deleteBeforeHistoricRoundState height limit = .ok db') : Upkeep floor db db'

theorem RawDB.Upkeep.keeps (step : Upkeep floor db db') (below : Below floor key)
    (listed : key ∈ db.keys) : key ∈ db'.keys := by
  cases step with
  | write _ other value =>
    obtain ⟨entry, mem, rfl⟩ := mem_map.mp listed
    by_cases same : entry.1 = other
    · exact mem_map.mpr ⟨_, KeyStore.mem_set.mpr (.inl rfl), same.symm⟩
    · exact mem_map_of_mem (KeyStore.mem_set.mpr (.inr ⟨mem, same⟩))
  | txCacheDropBefore reached ran =>
    simp only [RawDB.txCacheDropBefore, TxCacheKey.makeIterKey, ok_iff] at ran
    obtain ⟨_, ⟨_, _, rfl⟩, rfl⟩ := ran
    refine mem_keys_delete.mpr ⟨listed, fun dropped => ?_⟩
    have visited := (mem_keysToDrop dropped).resolve_right not_mem_nil
    exact below.notMem_visited reached (.inl rfl) visited
  | deleteBeforeHistoricRoundState reached ran =>
    simp only [RawDB.deleteBeforeHistoricRoundState, RoundStateHistoricKey.makeIterKey,
      ok_iff] at ran
    obtain ⟨_, ⟨_, _, rfl⟩, rfl⟩ := ran
    refine mem_keys_delete.mpr ⟨listed, fun dropped => ?_⟩
    exact below.notMem_visited reached (.inr rfl) (mem_of_mem_take dropped)

theorem RawDB.upkeep_keeps (run : Relation.ReflTransGen (Upkeep floor) db db')
    (below : Below floor key) (listed : key ∈ db.keys) : key ∈ db'.keys := by
  induction run with
  | refl => exact listed
  | tail _ step ih => exact step.keeps below ih

/-- The iterators visit only the height itself, so that pruning is right if and only if nothing is
to be pruned, and no key of the height is taken instead. Along any run with calls at this height or
later, all that is below stays. -/
theorem pruning_iff (db : RawDB) (height : UInt32) (limit : ℕ) (pos : height ≠ 0)
    (some : 1 ≤ limit) :
    ((∃ db', db.txCacheDropBefore height limit = .ok db' ∧
      db.Prunes db' (CachedBelow height) limit) ↔
      (∀ key ∈ db.keys, ¬ CachedBelow height key) ∧ ∀ tail, keyFront PrefixTxCache height ++ tail ∈
        db.keys →
        tail.length = 32 ∧ separator ∉ marshalUint32 height ++ tail) ∧
    ((∃ db', db.deleteBeforeHistoricRoundState height limit = .ok db' ∧
      db.Prunes db' (HistoricBelow height) limit) ↔
      (∀ key ∈ db.keys, ¬ HistoricBelow height key) ∧
        ∀ tail, keyFront PrefixHistoricRoundState height ++ tail ∉ db.keys) ∧
    ∀ db', Relation.ReflTransGen (RawDB.Upkeep height) db db' →
      ∀ key ∈ db.keys, Below height key → key ∈ db'.keys := by
  rw [← and_assoc]
  refine ⟨?_, fun db' run key listed below => RawDB.upkeep_keeps run below listed⟩
  have iterKey : RoundStateHistoricKey.makeIterKey PrefixHistoricRoundState height =
      .ok (keyFront PrefixHistoricRoundState height) := by
    rw [RoundStateHistoricKey.makeIterKey, require_of pos]
    rfl
  simp only [RawDB.txCacheDropBefore, RawDB.deleteBeforeHistoricRoundState,
    TxCacheKey.makeIterKey_eq pos, iterKey, ok_iff, Except.ok.injEq, exists_eq_left']
  constructor
  · rw [RawDB.prunes_delete_iff some fun key mem => ?_]
    · refine and_congr_right fun _ => (RawDB.keysToDrop_eq_nil_iff pos some fun key visited =>
        ?_).trans ?_
      · exact (RawDB.mem_visited_iff.mp visited).2
      · simp only [cacheKey, RawDB.mem_visited_iff]
        exact ⟨fun all tail listed => all tail ⟨listed, tail, rfl⟩, fun all tail visited =>
          all tail visited.1⟩
    · rcases RawDB.mem_keysToDrop mem with visited | dropped
      · exact RawDB.not_below_of_visited CachedBelow.begins visited
      · exact absurd dropped not_mem_nil
  · rw [RawDB.prunes_delete_iff some fun key mem =>
      RawDB.not_below_of_visited HistoricBelow.begins (mem_of_mem_take mem)]
    refine and_congr_right fun _ => ?_
    rw [take_eq_nil_iff, or_iff_right (by omega), eq_nil_iff_forall_not_mem]
    simp only [RawDB.mem_visited_iff]
    exact ⟨fun none tail listed => none _ ⟨listed, tail, rfl⟩, fun none key ⟨listed, tail, same⟩ =>
      none tail (same ▸ listed)⟩

def sampleCache : RawDB where
  entries := [(keyFront PrefixHistoricRoundState 9 ++ [0, 0, 0, 1, separator], [1]),
    (cacheKey 7 (replicate 32 0), [2]), (cacheKey 9 (replicate 32 5), [3])]
  sorted := by decide

theorem pruning_at_seven :
    (∃ db', sampleCache.txCacheDropBefore 7 3 = .ok db' ∧
      sampleCache.Prunes db' (CachedBelow 7) 3) ∧
      ∃ db', sampleCache.deleteBeforeHistoricRoundState 7 3 = .ok db' ∧
        sampleCache.Prunes db' (HistoricBelow 7) 3 := by
  have listed : sampleCache.keys = [keyFront PrefixHistoricRoundState 9 ++ [0, 0, 0, 1, separator],
    cacheKey 7 (replicate 32 0), cacheKey 9 (replicate 32 5)] := rfl
  have pruned := pruning_iff sampleCache 7 3 (by decide) (by decide)
  rw [listed] at pruned
  simp only [mem_cons, not_mem_nil, or_false, cacheKey] at pruned
  have above : ∀ {tag height tail other tail'}, 7 ≤ height → other < 7 →
      keyFront tag height ++ tail ≠ keyFront tag other ++ tail' := by
    intro _ _ _ _ _ reached less same
    obtain ⟨rfl, _⟩ := keyFront_append_inj same
    exact UInt32.lt_irrefl _ (UInt32.lt_of_lt_of_le less reached)
  refine ⟨pruned.1.mpr ⟨?_, fun tail found => ?_⟩, pruned.2.1.mpr ⟨?_, fun tail found => ?_⟩⟩
  · rintro _ (rfl | rfl | rfl) below <;> obtain ⟨_, _, less, same⟩ := below.begins
    · exact keyFront_apart _ _ _ _ same.symm
    · exact above (by decide) less same
    · exact above (by decide) less same
  · rcases found with same | same | same
    · exact absurd same (keyFront_apart _ _ _ _)
    · rw [(keyFront_append_inj same).2]
      decide
    · exact absurd (keyFront_append_inj same).1 (by decide)
  · rintro _ (rfl | rfl | rfl) below <;> obtain ⟨_, _, less, same⟩ := below.begins
    · exact above (by decide) less same
    · exact keyFront_apart _ _ _ _ same
    · exact keyFront_apart _ _ _ _ same
  · rcases found with same | same | same
    · exact absurd (keyFront_append_inj same).1 (by decide)
    · exact keyFront_apart _ _ _ _ same.symm
    · exact keyFront_apart _ _ _ _ same.symm

/-- A transaction of height 1 is kept and a round state of height 2 is deleted. -/
theorem pruning_wrong : ∃ cachedKey historicKey : Bytes, ∃ db : RawDB,
    CachedBelow 2 cachedKey ∧
      (RoundStateHistoricKey.mk PrefixHistoricRoundState 2 1 []).marshalBinary = .ok historicKey ∧
      db.keys = [historicKey, cachedKey] ∧ db.txCacheDropBefore 2 1 = .ok db ∧
        ∃ db', db.deleteBeforeHistoricRoundState 2 1 = .ok db' ∧ db'.keys = [cachedKey] := by
  refine ⟨cacheKey 1 (replicate 32 0), keyFront PrefixHistoricRoundState 2 ++
    [0, 0, 0, 1, separator],
      ⟨[(keyFront PrefixHistoricRoundState 2 ++ [0, 0, 0, 1, separator], []),
      (cacheKey 1 (replicate 32 0), [])], by decide⟩, ⟨1, replicate 32 0, by decide, rfl⟩, rfl, rfl,
      rfl, _, rfl, rfl⟩

end AliceNet.Consensus
