import AliceNet.Crypto.DkgSharing
import AliceNet.Crypto.Scalars
import AliceNet.Layer1.DkgState

/-! Participants who all follow the key generation. -/

namespace AliceNet.Layer1.Dkg

open Outcome
open SecretSharing
open Crypto (Curve Order Point Twist)
open Crypto.Cloudflare
open List

section

variable {curve : Curve}

theorem bigIntArrayToG1_marshal (P : curve.G1) :
    bigIntArrayToG1 curve (curve.marshalG1 P) = .ok P := by
  unfold bigIntArrayToG1
  split
  · rename_i zero
    rw [curve.marshalG1_abscissa zero]
  · rw [curve.unmarshalG1_marshalG1]

private theorem bigIntArrayToG2_marshal (plain : (curve.marshalG2 Q).1 = 0 → Q = 0) :
    bigIntArrayToG2 curve (curve.marshalG2 Q) = .ok Q := by
  unfold bigIntArrayToG2
  split
  · rename_i zero
    rw [plain zero]
  · rw [curve.unmarshalG2_marshalG2]

theorem publicKeyG1s_ok {keys : List curve.G1}
    (published : participants.map Participant.publicKey = keys.map curve.marshalG1) :
    publicKeyG1s curve participants = .ok keys := by
  have decoded : (participants.map Participant.publicKey).mapM (bigIntArrayToG1 curve) =
      .ok keys := by
    rw [published, mapM_map]
    exact (mapM_of_ok fun P _ => bigIntArrayToG1_marshal P).trans (congrArg Except.ok (map_id keys))
  rwa [mapM_map] at decoded

theorem foldlM_add_ok [AddCommMonoid M] {items : List α} {step : M → α → Except ε M}
    (spec : ∀ sum, ∀ item ∈ items, step sum item = .ok (sum + f item)) (start : M) :
    items.foldlM step start = .ok (start + (items.map f).sum) := by
  induction items generalizing start with
  | nil => simp [pure, Except.pure]
  | cons item rest ih =>
    rw [foldlM_cons, spec start item (mem_cons_self ..)]
    refine (ih (fun sum other mem => spec sum other (mem_cons_of_mem _ mem)) _).trans ?_
    rw [map_cons, sum_cons, add_assoc]

theorem sum_map_comm [AddCommMonoid M] (items : List α) (others : List β) (f : α → β → M) :
    (items.map fun item => (others.map (f item)).sum).sum =
      (others.map fun other => (items.map fun item => f item other).sum).sum := by
  induction items with
  | nil => simp
  | cons item rest ih => simp only [map_cons, sum_cons, ih, sum_map_add]

private theorem sumCommitments_ok {rows : List (List curve.G1)} {k : ℕ}
    (lengths : ∀ row ∈ rows, k < row.length) :
    sumCommitments curve (rows.map (map curve.marshalG1)) k = .ok (rows.map fun row =>
      row.getD k 0).sum := by
  rw [sumCommitments, foldlM_map, ← zero_add (rows.map _).sum]
  refine foldlM_add_ok ?_ 0
  intro sum row mem
  have inside := lengths row mem
  have found : arrayAt (row.map curve.marshalG1) k = .ok (curve.marshalG1 (row.getD k 0)) := by
    rw [arrayAt, getElem?_map, getElem?_eq_getElem inside, getD_eq_getElem _ _ inside]
    rfl
  refine bind_ok_iff.mpr ⟨_, mapError_ok_iff.mpr found, bind_ok_iff.mpr ⟨_, mapError_ok_iff.mpr ?_,
    rfl⟩⟩
  exact bigIntArrayToG1_marshal _

theorem gpkjStar_ok {rows : List (List curve.G1)} {threshold : ℕ}
    (lengths : ∀ row ∈ rows, row.length = threshold + 1) (j : ℕ) :
    gpkjStar curve (rows.map (map curve.marshalG1)) threshold j =
      .ok (rows.map fun row => evalAt row (j : ZMod Order)).sum := by
  have degrees : ∀ sum, ∀ k ∈ range (threshold + 1), (do
      let tmp1 ← sumCommitments curve (rows.map (map curve.marshalG1)) k
      pure (sum + ((j ^ k % Order : ℕ) : ZMod Order) • tmp1)) =
        Except.ok (sum + (rows.map fun row => (j : ZMod Order) ^ k • row.getD k 0).sum) := by
    intro sum k mem
    have inside : ∀ row ∈ rows, k < row.length := fun row listed => by
      rw [lengths row listed]
      exact mem_range.mp mem
    refine bind_ok_iff.mpr ⟨_, sumCommitments_ok inside, pure_ok_iff.mpr ?_⟩
    rw [ZMod.natCast_mod, Nat.cast_pow, smul_sum, map_map]
    rfl
  rw [gpkjStar, foldlM_add_ok degrees 0, zero_add, sum_map_comm]
  refine congrArg Except.ok (congrArg sum (map_congr_left ?_))
  intro row mem
  rw [evalAt_eq_sum, lengths row mem]

end

structure Party where
  transportPrivateKey : ℕ
  random : ℕ → ℕ

/-- The coefficients of degree `0`, …, `threshold` -/
def Party.coefficients (threshold : ℕ) (party : Party) : List ℕ :=
    (List.range (threshold + 1)).map party.random

section

variable (curve : Curve)

def Party.publicKey (party : Party) : curve.G1 :=
    (party.transportPrivateKey : ZMod Order) • curve.g1

structure Honest (participants : List Participant) (parties : List Party) : Prop where
  registered : participants.map Participant.publicKey = (parties.map (Party.publicKey curve)).map
    curve.marshalG1
  distinct : (parties.map (Party.publicKey curve)).Nodup
  enough : 4 ≤ parties.length
  bounded : parties.length < 2 ^ 63

def deal (keys : List curve.G1) (threshold : ℕ) (entry : Party × ℕ) :
    List ℕ × List ℕ × List Point :=
  ((others entry.2 keys).map fun other =>
      encrypt curve (polyAt (entry.1.coefficients threshold) (other.2 + 1)).val
        entry.1.transportPrivateKey other.1 (other.2 + 1),
    entry.1.coefficients threshold,
    (generatePublicCoefs curve (entry.1.coefficients threshold)).map curve.marshalG1)

end

def sumAt (parties : List Party) (threshold j : ℕ) : ZMod Order :=
  (parties.map fun party => polyAt (party.coefficients threshold) j).sum

section

variable {curve : Curve} {participants : List Participant} {parties : List Party}

theorem thresholdForUserCount_bounds (enough : 4 ≤ n) :
    2 ≤ thresholdForUserCount n ∧ thresholdForUserCount n < n := by
  simp only [thresholdForUserCount, Consensus.calcThreshold]
  split <;> omega

theorem coefficients_ne_nil {party : Party} : party.coefficients threshold ≠ [] := by
  simp [Party.coefficients]

theorem Honest.count (honest : Honest curve participants parties) :
    participants.length = parties.length := by
  simpa using congrArg length honest.registered

theorem Honest.found (honest : Honest curve participants parties)
    (listed : parties[i]? = some party) :
    findPubKIndex (party.publicKey curve) (parties.map (Party.publicKey curve)) = .ok i := by
  refine findPubKIndex_of_nodup honest.distinct ?_
  rw [getElem?_map, listed]
  rfl

variable {keys : List curve.G1} {threshold : ℕ} {secrets : List (ZMod Order)}

theorem generateShares_ok (decoded : publicKeyG1s curve participants = .ok keys)
    (enough : 4 ≤ participants.length)
    (found : findPubKIndex (party.publicKey curve) keys = .ok i) :
    generateShares curve party.transportPrivateKey participants party.random =
      .ok (deal curve keys (thresholdForUserCount participants.length) (party, i)) := by
  have large := (thresholdForUserCount_bounds enough).1
  refine bind_ok_iff.mpr ⟨party.coefficients (thresholdForUserCount participants.length),
    mapError_ok_iff.mpr ?_, ?_⟩
  · exact bind_ok_iff.mpr ⟨(), require_of large _, rfl⟩
  refine bind_ok_iff.mpr ⟨_, mapError_ok_iff.mpr decoded, ?_⟩
  refine bind_ok_iff.mpr ⟨_,
    mapError_ok_iff.mpr (generateSecretShares_ok coefficients_ne_nil found), ?_⟩
  exact bind_ok_iff.mpr ⟨_, mapError_ok_iff.mpr (generateEncryptedShares_ok found _), rfl⟩

theorem deal_share (listed : keys[j]? = some key) (different : j ≠ i) :
    (deal curve keys threshold (other, i)).1[positionOf i j]? =
      some (encrypt curve (polyAt (other.coefficients threshold) (j + 1)).val
        other.transportPrivateKey key (j + 1)) := by
  rw [deal, getElem?_map, others_getElem? different listed]
  rfl

theorem deal_length (inside : i < keys.length) :
    (deal curve keys threshold (party, i)).1.length = keys.length - 1 := by
  rw [deal, length_map, others_length inside]

/-- The share that the party at a position has made for the index -/
def shareFor (curve : Curve) (parties : List Party) (threshold j i : ℕ) (key : curve.G1) : ℕ :=
  match parties[i]? with
  | some other => encrypt curve (polyAt (other.coefficients threshold) (j + 1)).val
      other.transportPrivateKey key (j + 1)
  | none => 0

section

variable (honest : Honest curve participants parties)

include honest

theorem Honest.generateShares_ok (listed : parties[i]? = some party) :
    generateShares curve party.transportPrivateKey participants party.random =
      .ok (deal curve (parties.map (Party.publicKey curve)) (thresholdForUserCount parties.length)
        (party, i)) := by
  rw [← honest.count]
  exact Dkg.generateShares_ok (publicKeyG1s_ok honest.registered) (honest.count ▸ honest.enough)
    (honest.found listed)

theorem Honest.condensed (threshold : ℕ) (listed : parties[j]? = some party) :
    condenseCommitments curve (party.publicKey curve)
      ((parties.zipIdx.map (deal curve (parties.map (Party.publicKey curve)) threshold)).map
      Prod.fst)
        (parties.map (Party.publicKey curve)) =
      .ok ((others j (parties.map (Party.publicKey curve))).map fun entry =>
        shareFor curve parties threshold j entry.2 (party.publicKey curve)) := by
  refine condenseCommitments_ok (honest.found listed) (by simp) ?_
    (fun i => shareFor curve parties threshold j i (party.publicKey curve)) ?_
  · intro shares mem
    simp only [map_map, mem_map] at mem
    obtain ⟨⟨other, i⟩, listed, rfl⟩ := mem
    have inside := (mem_zipIdx listed).2.1
    exact deal_length (by simpa using inside)
  · intro i row different located
    rw [map_map, getElem?_map] at located
    obtain ⟨⟨other, i'⟩, position, rfl⟩ := Option.map_eq_some_iff.mp located
    rw [getElem?_zipIdx] at position
    obtain ⟨other', found, same⟩ := Option.map_eq_some_iff.mp position
    cases same
    rw [shareFor, found]
    have key : (parties.map (Party.publicKey curve))[j]? = some (party.publicKey curve) := by
      rw [getElem?_map, listed]
      rfl
    simpa using deal_share key (Ne.symm different)

theorem Honest.decrypted (threshold : ℕ) (listed : parties[j]? = some party) :
    generateDecryptedShares curve party.transportPrivateKey
      ((others j (parties.map (Party.publicKey curve))).map
        fun entry => shareFor curve parties threshold j entry.2 (party.publicKey curve))
        (parties.map (Party.publicKey curve)) =
      .ok ((others j parties).map fun entry =>
        (polyAt (entry.1.coefficients threshold) (j + 1)).val) := by
  obtain ⟨inside, _⟩ := List.getElem?_eq_some_iff.mp listed
  rw [generateDecryptedShares_ok (honest.found listed) (by simpa using inside), others_map, map_map]
  refine congrArg Except.ok (map_congr_left ?_)
  rintro ⟨other, i⟩ mem
  have found : parties[i]? = some other := mk_mem_zipIdx_iff_getElem?.mp (mem_filter.mp mem).1
  simp only [Function.comp_apply, Prod.map, id, shareFor, found]
  exact decrypt_encrypt _ _ _ _

theorem Honest.generateGroupKeys_ok (listed : parties[j]? = some party) :
    generateGroupKeys curve party.transportPrivateKey
      (party.coefficients (thresholdForUserCount parties.length))
        ((parties.zipIdx.map (deal curve (parties.map (Party.publicKey curve))
          (thresholdForUserCount parties.length))).map Prod.fst) (j + 1)
        participants =
      .ok ((sumAt parties (thresholdForUserCount parties.length) (j + 1)).val,
        curve.marshalG2 (sumAt parties (thresholdForUserCount parties.length) (j + 1) •
          curve.g2)) := by
  simp only [generateGroupKeys, honest.count]
  generalize thresholdForUserCount parties.length = threshold
  have secret : (((polyAt (party.coefficients threshold) (j + 1)).val +
      ((others j parties).map fun entry =>
        (polyAt (entry.1.coefficients threshold) (j + 1)).val).sum : ℕ) : ZMod Order) =
        sumAt parties threshold (j + 1) := by
    have all := sum_others listed fun entry => polyAt (entry.1.coefficients threshold) (j + 1)
    have values : parties.zipIdx.map (fun entry =>
        polyAt (entry.1.coefficients threshold) (j + 1)) =
        parties.map fun party => polyAt (party.coefficients threshold) (j + 1) := by
      rw [← zipIdx_map_fst 0 parties, map_map, zipIdx_map_fst]
      rfl
    rw [values] at all
    rw [sumAt, ← all, Nat.cast_add, ZMod.natCast_zmod_val, Nat.cast_list_sum, map_map]
    refine congrArg (fun values : List (ZMod Order) =>
      polyAt (party.coefficients threshold) (j + 1) + values.sum) (map_congr_left ?_)
    intro entry _
    exact ZMod.natCast_zmod_val _
  have group : (sumAt parties threshold (j + 1)).val =
      ((polyAt (party.coefficients threshold) (j + 1)).val +
      ((others j parties).map fun entry =>
          (polyAt (entry.1.coefficients threshold) (j + 1)).val).sum) % Order := by
    rw [← secret, ZMod.val_natCast]
  refine bind_ok_iff.mpr ⟨(), require_of (Nat.succ_pos j) _, bind_ok_iff.mpr ⟨(), require_of ?_ _,
    bind_ok_iff.mpr ⟨(), require_of ?_ _, ?_⟩⟩⟩
  · simp [Party.coefficients]
  · simp
  refine bind_ok_iff.mpr ⟨_, mapError_ok_iff.mpr (publicKeyG1s_ok honest.registered), ?_⟩
  refine bind_ok_iff.mpr ⟨_, mapError_ok_iff.mpr (honest.condensed threshold listed), ?_⟩
  refine bind_ok_iff.mpr ⟨_, mapError_ok_iff.mpr (honest.decrypted threshold listed), ?_⟩
  refine bind_ok_iff.mpr ⟨_, mapError_ok_iff.mpr (privatePolyEval_ok coefficients_ne_nil _), ?_⟩
  rw [pure_ok_iff, ← group, ZMod.natCast_zmod_val]

end

private theorem gpkjStar_deal (parties : List Party) (threshold j : ℕ) :
    gpkjStar curve ((parties.zipIdx.map (deal curve keys threshold)).map fun dealt =>
      dealt.2.2) threshold j =
      .ok (sumAt parties threshold j • curve.g1) := by
  have rows : (parties.zipIdx.map (deal curve keys threshold)).map (fun dealt => dealt.2.2) =
      (parties.map fun party => generatePublicCoefs curve (party.coefficients threshold)).map
        (map curve.marshalG1) := by
    rw [map_map, map_map, ← zipIdx_map_fst 0 parties, map_map, zipIdx_map_fst]
    rfl
  rw [rows, gpkjStar_ok, map_map, sumAt, sum_smul, map_map]
  · refine congrArg Except.ok (congrArg sum (map_congr_left ?_))
    intro party _
    exact evalAt_generatePublicCoefs _ _
  · intro row mem
    obtain ⟨party, _, rfl⟩ := mem_map.mp mem
    simp [generatePublicCoefs, Party.coefficients]

private theorem natCast_injective (small : a < Order) (small' : b < Order)
    (same : (a : ZMod Order) = b) : a = b := by
  rw [← ZMod.val_natCast_of_lt small, ← ZMod.val_natCast_of_lt small', same]

private theorem sumAt_zero (parties : List Party) (threshold : ℕ) :
    sumAt parties threshold 0 = (parties.map fun party => (party.random 0 : ZMod Order)).sum := by
  refine congrArg sum (map_congr_left ?_)
  intro party _
  rw [polyAt, Party.coefficients, range_succ_eq_map, map_cons, map_cons, Nat.cast_zero, evalAt_zero]

private theorem aggregateSignatures_sumAt {indices : List ℕ} (few : parties.length < 2 ^ 63)
    (enough : threshold < indices.length) (nodup : indices.Nodup)
    (members : ∀ j ∈ indices, 1 ≤ j ∧ j ≤ parties.length) (hash : curve.G1) :
    aggregateSignatures (indices.map fun j => sumAt parties threshold j • hash) indices threshold =
      .ok (sumAt parties threshold 0 • hash) := by
  have large : 2 ^ 63 < Order := by decide
  have inj : ∀ k ∈ indices, ∀ j ∈ indices, (k : ZMod Order) = j → k = j := by
    intro k first j second
    have bound := (members k first).2
    have bound' := (members j second).2
    exact natCast_injective (by omega) (by omega)
  have distinct : ((indices.take (threshold + 1)).map (Nat.cast : ℕ → ZMod Order)).Nodup := by
    refine ((take_sublist _ _).nodup nodup).map_on ?_
    intro k first j second
    exact inj k (mem_of_mem_take first) j (mem_of_mem_take second)
  have values : ∀ j : ℕ, sumAt parties threshold j = ((parties.map fun party =>
      (party.coefficients threshold).map (Nat.cast : ℕ → ZMod Order)).map fun coefficients =>
        evalAt coefficients (j : ZMod Order)).sum := by
    intro j
    rw [sumAt, map_map]
    rfl
  have determined : ∀ coefficients ∈ parties.map fun party =>
      (party.coefficients threshold).map (Nat.cast : ℕ → ZMod Order), coefficients.length ≤
        ((indices.take (threshold + 1)).map (Nat.cast : ℕ → ZMod Order)).length := by
    intro coefficients mem
    obtain ⟨party, _, rfl⟩ := mem_map.mp mem
    simp only [Party.coefficients, length_map, length_range, length_take]
    omega
  rw [aggregateSignatures_ok enough inj, values 0, Nat.cast_zero,
    ← recombine_smul distinct determined, map_map]
  refine congrArg Except.ok (congrArg sum (map_congr_left ?_))
  intro j _
  rw [values j]
  rfl

theorem pairingCheck_iff (nonzero : P ≠ 0) (a : ZMod Order) (Q : curve.G2) :
    pairingCheck (a • P) (-curve.g2) P Q = true ↔ Q = a • curve.g2 := by
  rw [pairingCheck, decide_eq_true_iff]
  exact curve.pairing_balanced_iff nonzero a Q

private theorem generateKeyShare_ok (random : w ≠ 0) :
    ∃ proof, generateKeyShare curve secretValue w =
      .ok (curve.marshalG1 ((secretValue : ZMod Order) • curve.h1), proof,
      curve.marshalG2 ((secretValue : ZMod Order) • curve.g2)) := by
  have generated : ∃ proof,
      generateDLEQProofG1 curve curve.h1 ((secretValue : ZMod Order) • curve.h1) curve.g1
      ((secretValue : ZMod Order) • curve.g1) secretValue w = .ok proof ∧
        verifyDLEQProofG1 curve curve.h1
        ((secretValue : ZMod Order) • curve.h1) curve.g1 ((secretValue : ZMod Order) • curve.g1)
            proof = .ok () :=
    verifyDLEQProofG1_generated random
  obtain ⟨proof, generated, verified⟩ := generated
  refine ⟨proof, bind_ok_iff.mpr ⟨curve.h1, ?_, bind_ok_iff.mpr ⟨(), require_of ?_ _,
    bind_ok_iff.mpr ⟨proof, mapError_ok_iff.mpr generated,
      bind_ok_iff.mpr ⟨(), mapError_ok_iff.mpr verified, rfl⟩⟩⟩⟩⟩
  · rw [hashToG1, curve.hashToG1_base]
  · exact (pairingCheck_iff curve.h1_ne_zero _ _).mpr rfl

/-- The key shares of secrets, as they are submitted -/
def keyShareWords (curve : Curve) (secrets : List (ZMod Order)) : List (Point × Twist) :=
  secrets.map fun secret =>
    (curve.marshalG1 (secret • curve.h1), curve.marshalG2 (secret • curve.g2))

private theorem addKeyShares_first
    (ran : addKeyShares curve (keyShareWords curve secrets) P Q = .ok (P', Q')) :
    P' = P + secrets.sum • curve.h1 := by
  induction secrets generalizing P Q with
  | nil =>
    cases ran
    simp
  | cons secret rest ih =>
    simp only [keyShareWords, map_cons, addKeyShares, bigIntArrayToG1_marshal, bind_ok_iff] at ran
    obtain ⟨_, ⟨⟩, Q'', _, rest⟩ := ran
    rw [ih rest, sum_cons, add_smul, add_assoc]

section

variable (plain : ∀ secret ∈ secrets, (curve.marshalG2 (secret • curve.g2)).1 = 0 →
  secret • curve.g2 = 0)

include plain

private theorem addKeyShares_plain
    (P : curve.G1) (Q : curve.G2) : addKeyShares curve (keyShareWords curve secrets) P Q =
      .ok (P + secrets.sum • curve.h1, Q + secrets.sum • curve.g2) := by
  induction secrets generalizing P Q with
  | nil => simp [keyShareWords, addKeyShares, pure, Except.pure]
  | cons secret rest ih =>
    obtain ⟨first, others⟩ := forall_mem_cons.mp plain
    simp only [keyShareWords, map_cons, addKeyShares, bigIntArrayToG1_marshal,
      bigIntArrayToG2_marshal first]
    refine (ih others _ _).trans ?_
    rw [sum_cons, add_smul, add_smul, add_assoc, add_assoc]

private theorem generateMasterPublicKey_plain :
    generateMasterPublicKey curve ((keyShareWords curve secrets).map Prod.fst)
      ((keyShareWords curve secrets).map Prod.snd) =
      .ok (curve.marshalG2 (secrets.sum • curve.g2)) := by
  refine bind_ok_iff.mpr ⟨(), require_of (by simp) _, bind_ok_iff.mpr ⟨curve.h1, ?_, ?_⟩⟩
  · rw [hashToG1, curve.hashToG1_base]
  refine bind_ok_iff.mpr ⟨(secrets.sum • curve.h1, secrets.sum • curve.g2), mapError_ok_iff.mpr ?_,
    ?_⟩
  · rw [← unzip_fst, ← unzip_snd, zip_unzip, addKeyShares_plain plain, zero_add, zero_add]
  · exact bind_ok_iff.mpr ⟨(), require_of ((pairingCheck_iff curve.h1_ne_zero _ _).mpr rfl) _, rfl⟩

end

private theorem generateMasterPublicKey_sound {masterPublicKey : Twist}
    (ran : generateMasterPublicKey curve ((keyShareWords curve secrets).map Prod.fst)
      ((keyShareWords curve secrets).map Prod.snd) = .ok masterPublicKey) :
    masterPublicKey = curve.marshalG2 (secrets.sum • curve.g2) := by
  simp only [generateMasterPublicKey, hashToG1, curve.hashToG1_base, ok_iff, mapError_ok_iff] at ran
  obtain ⟨_, _, _, ⟨⟩, ⟨P, Q⟩, sums, _, checked, rfl⟩ := ran
  rw [← unzip_fst, ← unzip_snd, zip_unzip] at sums
  rw [addKeyShares_first sums, zero_add] at checked
  rw [(pairingCheck_iff curve.h1_ne_zero _ _).mp checked]

private theorem keyShares_eq {keyShares : List (Point × (ℕ × ℕ) × Twist)}
    (submitted : Forall₂ (fun party keyShare => ∃ w ≠ 0, generateKeyShare curve (party.random 0) w =
      .ok keyShare) parties keyShares) :
    keyShares.map (fun keyShare => (keyShare.1, keyShare.2.2)) =
      keyShareWords curve (parties.map fun party => (party.random 0 : ZMod Order)) := by
  induction submitted with
  | nil => rfl
  | @cons party _ _ _ first _ ih =>
    obtain ⟨w, random, generated⟩ := first
    have made : ∃ proof, generateKeyShare curve (party.random 0) w = .ok (_, proof, _) :=
      generateKeyShare_ok random
    obtain ⟨proof, same⟩ := made
    obtain rfl := Except.ok.inj (same.symm.trans generated)
    rw [map_cons, ih]
    rfl

private theorem verify_sign {secret : ZMod Order} (signed : sign curve msg secret.val = .ok sig) :
    verify curve msg sig (secret • curve.g2) = true := by
  unfold sign at signed
  unfold verify
  split at signed
  · rename_i hash found
    cases signed
    rw [ZMod.natCast_zmod_val]
    exact decide_eq_true (curve.pairing_balanced secret hash)
  · cases signed

private theorem signatures_eq {indices : List ℕ} {secret : ℕ → ZMod Order} (nonempty : indices ≠ [])
    (signed : indices.mapM (fun j => sign curve msg (secret j).val) = .ok sigs) :
    ∃ hash, curve.hashToG1 msg = some hash ∧ sigs = indices.map fun j => secret j • hash := by
  cases hashed : curve.hashToG1 msg with
  | none =>
    cases indices with
    | nil => exact (nonempty rfl).elim
    | cons j rest => simp [mapM_cons, sign, hashed, bind, Except.bind] at signed
  | some hash =>
    refine ⟨hash, rfl, mapM_ok_eq_map ?_ signed⟩
    intro j sig made
    rw [sign, hashed, ZMod.natCast_zmod_val] at made
    exact (Except.ok.inj made).symm

private theorem forall₂_zipIdx_map {items : List α} {related : α → β → Prop}
    (each : ∀ i item, items[i]? = some item → related item (f (item, i))) :
    Forall₂ related items (items.zipIdx.map f) := by
  refine forall₂_iff_get.mpr ⟨by simp, fun i inside _ => ?_⟩
  simpa using each i _ (getElem?_eq_getElem inside)

/-- With participants who all follow the key generation: everyone's shares are made; the group
secret of an index is what all polynomials together are there, and fits the commitments; enough
partial signatures of different participants make the signature under the sum of all secrets; and
the master public key is the key of this sum. It is also found, unless a key share is taken for the
point at infinity. -/
theorem Honest.keys_correct (honest : Honest curve participants parties) :
    ∃ dealt : List (List ℕ × List ℕ × List Point),
      List.Forall₂ (fun party shares => generateShares curve party.transportPrivateKey participants
        party.random =
        .ok shares) parties dealt ∧
      (∀ j party shares, parties[j]? = some party → dealt[j]? = some shares →
        generateGroupKeys curve party.transportPrivateKey shares.2.1 (dealt.map Prod.fst) (j + 1)
          participants =
          .ok ((sumAt parties (thresholdForUserCount parties.length) (j + 1)).val,
            curve.marshalG2 (sumAt parties (thresholdForUserCount parties.length) (j + 1) •
              curve.g2)) ∧
        gpkjStar curve (dealt.map fun shares => shares.2.2) (thresholdForUserCount parties.length)
          (j + 1) =
          .ok (sumAt parties (thresholdForUserCount parties.length) (j + 1) • curve.g1)) ∧
      (∀ msg indices sigs, thresholdForUserCount parties.length < indices.length → indices.Nodup →
        (∀ j ∈ indices, 1 ≤ j ∧ j ≤ parties.length) →
        indices.mapM (fun j =>
          sign curve msg (sumAt parties (thresholdForUserCount parties.length) j).val) = .ok sigs →
        ∃ sig, aggregateSignatures sigs indices (thresholdForUserCount parties.length) = .ok sig ∧
          sign curve msg (sumAt parties (thresholdForUserCount parties.length) 0).val = .ok sig ∧
          verify curve msg sig (sumAt parties (thresholdForUserCount parties.length) 0 • curve.g2) =
            true) ∧
      ∀ keyShares, List.Forall₂ (fun party keyShare => ∃ w ≠ 0,
        generateKeyShare curve (party.random 0) w =
          .ok keyShare) parties keyShares →
        (∀ masterPublicKey, generateMasterPublicKey curve (keyShares.map Prod.fst)
            (keyShares.map fun keyShare => keyShare.2.2) = .ok masterPublicKey →
          masterPublicKey =
            curve.marshalG2 (sumAt parties (thresholdForUserCount parties.length) 0 • curve.g2)) ∧
        ((∀ keyShare ∈ keyShares, keyShare.2.2.1 = 0 → keyShare.2.2 = (0, 0, 0, 0)) →
          ∃ masterPublicKey, generateMasterPublicKey curve (keyShares.map Prod.fst)
            (keyShares.map fun keyShare => keyShare.2.2) = .ok masterPublicKey) := by
  refine ⟨parties.zipIdx.map (deal curve (parties.map (Party.publicKey curve))
    (thresholdForUserCount parties.length)),
    forall₂_zipIdx_map fun i party listed => honest.generateShares_ok listed, ?_, ?_, ?_⟩
  · intro j party shares listed found
    have same : shares = deal curve (parties.map (Party.publicKey curve))
        (thresholdForUserCount parties.length) (party, j) := by
      rw [getElem?_map, getElem?_zipIdx, listed] at found
      simpa using found.symm
    rw [same]
    exact ⟨honest.generateGroupKeys_ok listed, gpkjStar_deal parties _ _⟩
  · intro msg indices sigs enough nodup members signed
    obtain ⟨hash, hashed, rfl⟩ :=
      signatures_eq (ne_nil_of_length_pos (Nat.zero_lt_of_lt enough)) signed
    have aggregated := aggregateSignatures_sumAt honest.bounded enough nodup members hash
    have sound : sign curve msg (sumAt parties (thresholdForUserCount parties.length) 0).val =
        .ok (sumAt parties (thresholdForUserCount parties.length) 0 • hash) := by
      rw [sign, hashed, ZMod.natCast_zmod_val]
    exact ⟨_, aggregated, sound, verify_sign sound⟩
  · intro keyShares submitted
    have words := keyShares_eq submitted
    have first : keyShares.map Prod.fst = (keyShareWords curve (parties.map fun party =>
        (party.random 0 : ZMod Order))).map Prod.fst := by
      rw [← words, map_map]
      rfl
    have second : keyShares.map (fun keyShare => keyShare.2.2) =
        (keyShareWords curve (parties.map fun party =>
        (party.random 0 : ZMod Order))).map Prod.snd := by
      rw [← words, map_map]
      rfl
    rw [first, second, sumAt_zero]
    refine ⟨fun masterPublicKey ran => generateMasterPublicKey_sound ran, fun plain => ⟨_,
      generateMasterPublicKey_plain fun secret mem zero => ?_⟩⟩
    have listed : curve.marshalG2 (secret • curve.g2) ∈ keyShares.map fun keyShare =>
        keyShare.2.2 := by
      rw [second, keyShareWords, map_map]
      exact mem_map_of_mem mem
    obtain ⟨keyShare, submitted, same⟩ := mem_map.mp listed
    have nothing := plain keyShare submitted (by rw [same]; exact zero)
    exact curve.marshalG2_injective (same.symm.trans (nothing.trans curve.marshalG2_zero.symm))

end

def sampleParties : List Party := [1, 2, 3, 4].map fun key => ⟨key, Nat.succ⟩

def sampleParticipants : List Participant :=
  [1, 2, 3, 4].map fun key =>
    { address := key, index := key, publicKey := Crypto.Scalars.marshalG1 ((key : ZMod Order) • 1) }

private theorem sampleHonest : Honest Crypto.Scalars.curve sampleParticipants sampleParties where
  registered := by decide +kernel
  distinct := by decide +kernel
  enough := by decide
  bounded := by decide

theorem Honest.keys_correct_four :
    (∃ dealt, List.Forall₂ (fun party shares => generateShares Crypto.Scalars.curve
      party.transportPrivateKey sampleParticipants party.random = .ok shares) sampleParties dealt ∧
    ∀ shares, dealt[0]? = some shares → ∃ publicKey,
      generateGroupKeys Crypto.Scalars.curve 1 shares.2.1
      (dealt.map Prod.fst) 1 sampleParticipants = .ok (24, publicKey)) ∧
    (∃ sigs sig,
      [1, 2, 4].mapM (fun j => sign Crypto.Scalars.curve [5, 6] (sumAt sampleParties 2 j).val) =
      .ok sigs ∧
      aggregateSignatures sigs [1, 2, 4] 2 = .ok sig ∧ sign Crypto.Scalars.curve [5, 6] 4 =
        .ok sig) ∧
    ∃ keyShare, generateKeyShare Crypto.Scalars.curve 1 1 = .ok keyShare ∧
      generateMasterPublicKey Crypto.Scalars.curve (replicate 4 keyShare.1)
        (replicate 4 keyShare.2.2) =
        .ok (Crypto.Scalars.curve.marshalG2
          (sumAt sampleParties 2 0 • Crypto.Scalars.curve.g2)) := by
  obtain ⟨dealt, made, groupKeys, signatures, masterKey⟩ := Honest.keys_correct sampleHonest
  refine ⟨⟨dealt, made, fun shares found => ?_⟩, ?_, ?_⟩
  · have secret : (sumAt sampleParties (thresholdForUserCount sampleParties.length) 1).val =
      24 := by decide +kernel
    obtain ⟨generated, _⟩ := groupKeys 0 ⟨1, Nat.succ⟩ shares rfl found
    exact ⟨_, generated⟩
  · have hashed : Crypto.Scalars.curve.hashToG1 [5, 6] = some (2 : ZMod Order) :=
      if_neg (by decide +kernel)
    obtain ⟨sigs, signed⟩ : ∃ sigs, [1, 2, 4].mapM (fun j => sign Crypto.Scalars.curve [5, 6]
        (sumAt sampleParties 2 j).val) = .ok sigs := by
      refine exists_mapM_ok_iff.mpr fun j _ => ?_
      rw [sign, hashed]
      exact ⟨_, rfl⟩
    obtain ⟨sig, aggregated, whole, _⟩ :=
      signatures [5, 6] [1, 2, 4] sigs (by decide) (by decide) (by decide) signed
    have secret : (sumAt sampleParties (thresholdForUserCount sampleParties.length) 0).val =
      4 := by decide +kernel
    exact ⟨sigs, sig, signed, aggregated, whole⟩
  · have plain : (generateKeyShare Crypto.Scalars.curve 1 1).map (fun keyShare =>
      decide (keyShare.2.2.1 = 0)) =
        .ok false := by decide +kernel
    obtain ⟨keyShare, shared, nonzero⟩ := map_ok_iff.mp plain
    obtain ⟨sound, found⟩ := masterKey (replicate 4 keyShare) (by
      have one : ∃ w ≠ 0, generateKeyShare Crypto.Scalars.curve 1 w = .ok keyShare :=
        ⟨1, one_ne_zero, shared⟩
      exact .cons one (.cons one (.cons one (.cons one .nil))))
    obtain ⟨masterPublicKey, generated⟩ := found fun other listed zero => by
      rw [eq_of_mem_replicate listed] at zero
      exact absurd zero (of_decide_eq_false nonzero)
    exact ⟨keyShare, shared, sound masterPublicKey generated ▸ generated⟩

end AliceNet.Layer1.Dkg
