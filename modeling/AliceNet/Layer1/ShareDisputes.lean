import AliceNet.Layer1.DkgCorrectness
import AliceNet.Layer1.ValidatorSetAssembly

/-! Disputes about distributed shares. -/

namespace AliceNet.Layer1.Dkg

open Outcome Crypto.Scalars
open SecretSharing
open Crypto (Curve Order Point Twist)
open Crypto.Cloudflare
open Crypto.CryptoLibrary (bn128Add bn128Multiply bn128IsOnCurve)
open Bridge.Ethdkg (Revert World Msg addPowers evaluateCommitments decryptedShare
  accuseParticipantDistributedBadShares majorSlash)
open Crypto.CryptoLibrary
open List

section

variable {curve : Curve}

private theorem addPowers_ok (index : ℕ) (rest : List curve.G1) (x : ℕ) (R : curve.G1) :
    addPowers curve index (rest.map curve.marshalG1) x (curve.marshalG1 R) =
      .ok (curve.marshalG1 (R + ((x : ZMod Order) * index) • evalAt rest
        (index : ZMod Order))) := by
  induction rest generalizing x R with
  | nil => simp [addPowers, pure, Except.pure]
  | cons P rest ih =>
    have power : (mulmod x index GROUP_ORDER : ZMod Order) =
        (x : ZMod Order) * index := by
      rw [mulmod, GROUP_ORDER, ZMod.natCast_mod, Nat.cast_mul]
    refine bind_ok_iff.mpr ⟨_, bn128Multiply_marshal P _,
      bind_ok_iff.mpr ⟨_, bn128Add_marshal _ _, (ih _ _).trans ?_⟩⟩
    rw [power, evalAt_cons, smul_add, smul_smul, add_assoc]

private theorem evaluateCommitments_ok (two : 2 ≤ row.length) (index : ℕ) :
    evaluateCommitments curve (row.map curve.marshalG1) index =
      .ok (curve.marshalG1 (evalAt row (index : ZMod Order))) := by
  match row, two with
  | constant :: linear :: rest, _ =>
    have first : Bridge.Ethdkg.arrayAt ((constant :: linear :: rest).map curve.marshalG1) 0 =
        .ok (curve.marshalG1 constant) := rfl
    have second : Bridge.Ethdkg.arrayAt ((constant :: linear :: rest).map curve.marshalG1) 1 =
        .ok (curve.marshalG1 linear) := rfl
    have product := mapError_ok_iff (f := Revert.crypto).mpr (bn128Multiply_marshal linear index)
    have sum := mapError_ok_iff (f := Revert.crypto).mpr
      (bn128Add_marshal constant ((index : ZMod Order) • linear))
    rw [evaluateCommitments, bind_of_ok first, bind_of_ok second, bind_of_ok product,
      bind_of_ok sum, mapError_ok_iff]
    refine (addPowers_ok index rest index _).trans ?_
    rw [evalAt_cons, evalAt_cons, smul_add, smul_smul, add_assoc]

theorem smul_g1_inj {a b : ZMod Order} : a • curve.g1 = b • curve.g1 ↔ a = b := by
  rw [← sub_eq_zero, ← sub_smul, smul_eq_zero_iff_left curve.g1_ne_zero, sub_eq_zero]

theorem marshalG1_inj : curve.marshalG1 P = curve.marshalG1 Q ↔ P = Q := by
  constructor
  · intro same
    have found := curve.unmarshalG1_marshalG1 P
    rw [same, curve.unmarshalG1_marshalG1] at found
    exact (Option.some.inj found).symm
  · rintro rfl
    rfl

private theorem bn128Multiply_G1 (share : ℕ) : bn128Multiply curve G1 share =
    .ok (curve.marshalG1 ((share : ZMod Order) • curve.g1)) := by
  rw [← curve.marshalG1_g1, bn128Multiply_marshal]

theorem positionOf_eq {i j : ℕ} (different : j ≠ i) :
    j + 1 - (if j + 1 < i + 1 then 1 else 2) = positionOf i j := by
  rw [positionOf]
  split <;> split <;> omega

def PadsAgree (curve : Curve) (sharedKeyX index : ℕ) : Prop :=
  curve.keccak256 (encodeWords [sharedKeyX, index % 2 ^ 64]) =
    curve.keccak256 (Bytes.bigEndian 32 sharedKeyX ++ Bytes.bigEndian 8 index)

private theorem decryptedShare_ok {P : curve.G1} (different : j ≠ i)
    (found : encryptedShares[positionOf i j]? = some (secret ^^^ oneTimePad curve P (j + 1)))
    (agree : PadsAgree curve (curve.marshalG1 P).1 (j + 1)) :
    decryptedShare curve encryptedShares (j + 1) (i + 1) (curve.marshalG1 P).1 = .ok secret := by
  have enough : (if j + 1 < i + 1 then 1 else 2) ≤ j + 1 := by
    split <;> omega
  have position : Word.sub (Revert.panic 0x11) (j + 1) (if j + 1 < i + 1 then 1 else 2) =
      .ok (positionOf i j) := Word.sub_ok_iff.mpr ⟨enough, positionOf_eq different⟩
  have share : Bridge.Ethdkg.arrayAt encryptedShares (positionOf i j) =
      .ok (secret ^^^ oneTimePad curve P (j + 1)) := by
    rw [Bridge.Ethdkg.arrayAt, found]
  rw [decryptedShare, bind_of_ok position, bind_of_ok share, oneTimePad, agree, Nat.xor_assoc,
    Nat.xor_self, Nat.xor_zero]
  rfl

end

section

variable (curve : Curve) (participants : List Participant) (i : ℕ) (party : Party)
  (dealer : Participant)

/-- A party at a position whose key nobody before it has registered. -/
structure Dealing : Prop where
  enough : 4 ≤ participants.length
  indices : ∀ j participant, participants[j]? = some participant → participant.index = j + 1
  accepted : ∀ participant ∈ participants, participant.publicKey.1 ≠ 0 ∧ participant.publicKey.2 ≠
    0 ∧ bn128IsOnCurve participant.publicKey = true
  own : participants[i]? = some dealer
  key : dealer.publicKey = curve.marshalG1 (party.publicKey curve)
  first : ∀ j < i, ∀ participant, participants[j]? = some participant → participant.publicKey ≠
    dealer.publicKey

/-- Another participant whose key is a known multiple of the generator -/
structure Disputer (j k : ℕ) : Prop where
  different : j ≠ i
  listed : ∃ participant, participants[j]? = some participant ∧
    participant.publicKey = curve.marshalG1 ((k : ZMod Order) • curve.g1)

structure Received (dealt : List ℕ × List ℕ × List Point) (j k : ℕ) : Prop where
  decrypts : ∃ share, dealt.1[j + 1 - (if j + 1 < i + 1 then 1 else 2)]? = some share ∧
    decrypt curve share k (party.publicKey curve) (j + 1) = (polyAt dealt.2.1 (j + 1)).val
  verifies : ∀ (dkgState : DkgState) (stored : Participant), dkgState.index = j + 1 →
    dkgState.numberOfValidators = participants.length → dkgState.transportPrivateKey = k →
    dkgState.participants dealer.address = some stored → stored.encryptedShares = dealt.1 →
    stored.commitments = dealt.2.2 → verifyDistributedShares curve dkgState dealer =
      .ok (true, true)

structure Acquitted (dealt : List ℕ × List ℕ × List Point) (j k : ℕ) : Prop where
  fits : ∃ share result,
    decryptedShare curve dealt.1 (j + 1) (i + 1)
      (curve.marshalG1 ((k : ZMod Order) • party.publicKey curve)).1 = .ok share ∧
    evaluateCommitments curve dealt.2.2 (j + 1) = .ok result ∧
    bn128Multiply curve Crypto.CryptoLibrary.G1 share = .ok result
  slashes :
    ∀ (w : World) (msg : Msg) (dishonestAddress : Bridge.Ethdkg.Address) (proof : Point)
      (w' : World),
    (w.participant msg.sender).index = j + 1 → (w.participant dishonestAddress).index = i + 1 →
    accuseParticipantDistributedBadShares curve w msg dishonestAddress dealt.1 dealt.2.2
      (curve.marshalG1 ((k : ZMod Order) • party.publicKey curve)) proof = .ok w' →
    ∃ v, majorSlash w msg msg.sender = .ok v ∧ w'.validators = v.validators ∧ w'.slashed = v.slashed

end

section

variable {curve : Curve} {participants : List Participant} {i j k : ℕ} {party : Party}
  {dealer : Participant}

theorem bigIntArrayToG1_ok_iff (nonzero : words.1 ≠ 0) :
    bigIntArrayToG1 curve words = .ok P ↔ curve.marshalG1 P = words := by
  rw [bigIntArrayToG1, if_neg nonzero, ← curve.unmarshalG1_eq_some]
  cases curve.unmarshalG1 words with
  | none => simp
  | some Q => simp

private theorem accusation_slashes {encryptedShares : List ℕ} {sharedKey proof result : Point}
    {msg : Msg} {dishonestAddress : Bridge.Ethdkg.Address} {share : ℕ}
    (decrypted : decryptedShare curve encryptedShares (w.participant msg.sender).index
      (w.participant dishonestAddress).index sharedKey.1 = .ok share)
    (evaluated : evaluateCommitments curve commitments (w.participant msg.sender).index =
      .ok result)
    (fits : bn128Multiply curve G1 share = .ok result)
    (ran : accuseParticipantDistributedBadShares curve w msg dishonestAddress encryptedShares
      commitments sharedKey proof = .ok w') :
    ∃ v, majorSlash w msg msg.sender = .ok v ∧ w'.validators = v.validators ∧ w'.slashed =
      v.slashed := by
  simp only [accuseParticipantDistributedBadShares, ok_iff, mapError_ok_iff] at ran
  obtain ⟨_, _, _, _, _, _, _, _, _, _, _, _, _, _, _, _, _, _, _, _, share', decrypted', result',
    evaluated', tmp, product, v, slashed, _, _, rfl⟩ := ran
  obtain rfl := Except.ok.inj (decrypted.symm.trans decrypted')
  obtain rfl := Except.ok.inj (evaluated.symm.trans evaluated')
  obtain rfl := Except.ok.inj (fits.symm.trans product)
  rw [if_neg (fun different => different rfl)] at slashed
  exact ⟨v, slashed, rfl, rfl⟩

section

variable (dealing : Dealing curve participants i party dealer)

include dealing

theorem Dealing.decoded_iff : (∃ keys, publicKeyG1s curve participants = .ok keys) ↔
      ∀ participant ∈ participants, ∃ P, curve.marshalG1 P = participant.publicKey := by
  rw [publicKeyG1s, exists_mapM_ok_iff]
  refine forall₂_congr fun participant mem => exists_congr fun P => ?_
  exact bigIntArrayToG1_ok_iff (dealing.accepted participant mem).1

section

variable {keys : List curve.G1} (decoded : publicKeyG1s curve participants = .ok keys)

include decoded

theorem Dealing.key_at (listed : participants[j]? = some participant) :
    ∃ P, keys[j]? = some P ∧ curve.marshalG1 P = participant.publicKey := by
  obtain ⟨inside, same⟩ := List.getElem?_eq_some_iff.mp listed
  have each := forall₂_iff_get.mp (mapM_ok_iff_forall₂.mp decoded)
  have bound : j < keys.length := each.1 ▸ inside
  have result := each.2 j inside bound
  have mem : participant ∈ participants := mem_of_getElem? listed
  refine ⟨keys[j], getElem?_eq_getElem bound, ?_⟩
  rw [← bigIntArrayToG1_ok_iff (dealing.accepted participant mem).1, ← same]
  exact result

theorem Dealing.found : findPubKIndex (party.publicKey curve) keys = .ok i := by
  obtain ⟨P, located, words⟩ := dealing.key_at decoded dealing.own
  have own : P = party.publicKey curve := marshalG1_inj.mp (words.trans dealing.key)
  refine findPubKIndex_ok (own ▸ located) ?_
  intro j before same
  have inside : j < participants.length := before.trans (List.getElem?_eq_some_iff.mp dealing.own).1
  obtain ⟨Q, located', words'⟩ := dealing.key_at decoded (getElem?_eq_getElem inside)
  obtain rfl := Option.some.inj (located'.symm.trans same)
  exact dealing.first j before _ (getElem?_eq_getElem inside) (words'.symm.trans dealing.key.symm)

theorem Dealing.share_at (disputer : Disputer curve participants i j k) (threshold : ℕ) :
    (deal curve keys threshold (party, i)).1[positionOf i j]? =
      some (encrypt curve (polyAt (party.coefficients threshold) (j + 1)).val
        party.transportPrivateKey
        ((k : ZMod Order) • curve.g1) (j + 1)) := by
  obtain ⟨participant, listed, key⟩ := disputer.listed
  obtain ⟨P, located, words⟩ := dealing.key_at decoded listed
  obtain rfl := marshalG1_inj.mp (words.trans key)
  exact deal_share located disputer.different

end

end

private theorem encrypt_eq (secretValue privK k participantIndex : ℕ) :
    encrypt curve secretValue privK ((k : ZMod Order) • curve.g1) participantIndex =
      secretValue ^^^ oneTimePad curve ((k : ZMod Order) • (privK : ZMod Order) • curve.g1)
        participantIndex := by
  rw [encrypt, Nat.xor_comm, smul_comm]

theorem commitments_two (threshold : ℕ) (pos : 0 < threshold) (party : Party) :
    2 ≤ (generatePublicCoefs curve (party.coefficients threshold)).length := by
  simp only [generatePublicCoefs, Party.coefficients, length_map, length_range]
  omega

section

variable (dealing : Dealing curve participants i party dealer) {keys : List curve.G1}
  (decoded : publicKeyG1s curve participants = .ok keys)

include dealing decoded

theorem Dealing.acquitted (disputer : Disputer curve participants i j k)
    (agree : PadsAgree curve (curve.marshalG1 ((k : ZMod Order) • party.publicKey curve)).1
      (j + 1)) :
    Acquitted curve i party
      (deal curve keys (thresholdForUserCount participants.length) (party, i)) j k := by
  have large := (thresholdForUserCount_bounds dealing.enough).1
  have found := dealing.share_at decoded disputer (thresholdForUserCount participants.length)
  rw [encrypt_eq] at found
  have decrypted := decryptedShare_ok disputer.different found agree
  have evaluated : evaluateCommitments curve
      (deal curve keys (thresholdForUserCount participants.length) (party, i)).2.2 (j + 1) = .ok
        (curve.marshalG1 (polyAt (party.coefficients (thresholdForUserCount participants.length))
          (j + 1) •
          curve.g1)) := by
    rw [deal, evaluateCommitments_ok (commitments_two _ (by omega) party),
      evalAt_generatePublicCoefs]
  have fits : bn128Multiply curve G1
      (polyAt (party.coefficients (thresholdForUserCount participants.length)) (j + 1)).val =
          .ok _ :=
    bn128Multiply_G1 _
  rw [ZMod.natCast_zmod_val] at fits
  refine ⟨⟨_, _, decrypted, evaluated, fits⟩, ?_⟩
  intro w msg dishonestAddress proof w' disputing disputed ran
  refine accusation_slashes ?_ ?_ fits ran
  · rw [disputing, disputed]
    exact decrypted
  · rw [disputing]
    exact evaluated

theorem Dealing.verifies (disputer : Disputer curve participants i j k) {stored : Participant}
    (index : dkgState.index = j + 1) (count : dkgState.numberOfValidators = participants.length)
    (privK : dkgState.transportPrivateKey = k)
    (known : dkgState.participants dealer.address = some stored)
    (shares : stored.encryptedShares =
      (deal curve keys (thresholdForUserCount participants.length) (party, i)).1)
    (commitments : stored.commitments =
      (deal curve keys (thresholdForUserCount participants.length) (party, i)).2.2) :
    verifyDistributedShares curve dkgState dealer = .ok (true, true) := by
  have place := dealing.indices i dealer dealing.own
  have different : dkgState.index ≠ dealer.index := by
    rw [index, place]
    exact fun same => disputer.different (Nat.succ.inj same)
  have inside : i < keys.length :=
    (List.getElem?_eq_some_iff.mp (dealing.key_at decoded dealing.own).choose_spec.1).1
  have length : keys.length = participants.length := (mapM_ok_iff_forall₂.mp decoded).length_eq.symm
  have located := dealing.share_at decoded disputer (thresholdForUserCount participants.length)
  rw [verifyDistributedShares, if_neg different, count]
  refine bind_ok_iff.mpr ⟨(), require_of dealing.enough _, ?_⟩
  simp only [known]
  refine bind_ok_iff.mpr ⟨(), require_of ?_ _, bind_ok_iff.mpr ⟨(), require_of ?_ _, ?_⟩⟩
  · rw [commitments, deal]
    simp [generatePublicCoefs, Party.coefficients]
  · rw [shares, deal_length inside, length]
  refine bind_ok_iff.mpr
    ⟨generatePublicCoefs curve (party.coefficients (thresholdForUserCount participants.length)), ?_,
    ?_⟩
  · rw [commitments, deal, mapM_map]
    refine mapError_ok_iff.mpr ((mapM_of_ok fun P _ => bigIntArrayToG1_marshal P).trans ?_)
    rw [map_id']
  have key : bigIntArrayToG1 curve dealer.publicKey = .ok (party.publicKey curve) := by
    rw [dealing.key, bigIntArrayToG1_marshal]
  have skipped : (if dealer.index < dkgState.index then 2 else 1) = if j + 1 < i + 1 then 1 else
      2 := by
    split <;> split <;> omega
  have early : (if j + 1 < i + 1 then 1 else 2) ≤ j + 1 := by
    split <;> omega
  have share : arrayAt stored.encryptedShares (j + 1 - (if j + 1 < i + 1 then 1 else 2)) =
      .ok (encrypt curve
      (polyAt (party.coefficients (thresholdForUserCount participants.length)) (j + 1)).val
        party.transportPrivateKey
      ((k : ZMod Order) • curve.g1) (j + 1)) := by
    rw [arrayAt, positionOf_eq disputer.different, shares, located]
  have two : 2 ≤ (generatePublicCoefs curve (party.coefficients _)).length :=
    commitments_two _ (Nat.zero_lt_of_lt (thresholdForUserCount_bounds dealing.enough).1) party
  refine bind_ok_iff.mpr ⟨_, mapError_ok_iff.mpr key, ?_⟩
  rw [skipped, index, privK]
  refine bind_ok_iff.mpr ⟨(), require_of early _, bind_ok_iff.mpr ⟨_, mapError_ok_iff.mpr share,
    bind_ok_iff.mpr ⟨true, mapError_ok_iff.mpr ?_, rfl⟩⟩⟩
  rw [Party.publicKey, decrypt_encrypt,
    compareSharedSecret_ok (Nat.succ_pos j) (ne_nil_of_length_pos (by omega)),
    evalAt_generatePublicCoefs, ZMod.natCast_zmod_val, decide_eq_true rfl]

end

/-- A dealer whose key nobody has registered before it makes its shares exactly if all keys are
encodings of points. Everyone whose key is a known multiple of the generator can read its share, and
cannot hold it against the dealer if the hash function takes both ways to pack its index for the
same. -/
theorem Dealing.shares_safe (dealing : Dealing curve participants i party dealer) :
    ((∃ dealt, generateShares curve party.transportPrivateKey participants party.random =
      .ok dealt) ↔
      ∀ participant ∈ participants, ∃ P, curve.marshalG1 P = participant.publicKey) ∧
    ∀ dealt, generateShares curve party.transportPrivateKey participants party.random = .ok dealt →
      ∀ j k, Disputer curve participants i j k →
        Received curve participants i party dealer dealt j k ∧
        (PadsAgree curve (curve.marshalG1 ((k : ZMod Order) • party.publicKey curve)).1 (j + 1) →
          Acquitted curve i party dealt j k) := by
  have made : ∀ {keys}, publicKeyG1s curve participants = .ok keys → _ := fun decoded =>
    generateShares_ok decoded dealing.enough (dealing.found decoded)
  have decodes : ∀ {dealt},
      generateShares curve party.transportPrivateKey participants party.random = .ok dealt →
        ∃ keys, publicKeyG1s curve participants = .ok keys := by
    intro dealt generated
    simp only [generateShares, ok_iff'] at generated
    obtain ⟨_, _, keys, decoded, _⟩ := generated
    exact ⟨keys, decoded⟩
  refine ⟨?_, ?_⟩
  · rw [← dealing.decoded_iff]
    constructor
    · rintro ⟨_, generated⟩
      exact decodes generated
    · rintro ⟨_, decoded⟩
      exact ⟨_, made decoded⟩
  · intro dealt generated j k disputer
    obtain ⟨keys, decoded⟩ := decodes generated
    obtain rfl := Except.ok.inj ((made decoded).symm.trans generated)
    refine ⟨⟨⟨_, ?_, decrypt_encrypt _ party.transportPrivateKey k (j + 1)⟩, ?_⟩,
      dealing.acquitted decoded disputer⟩
    · rw [positionOf_eq disputer.different]
      exact dealing.share_at decoded disputer _
    · intro dkgState stored index count privK known shares commitments
      exact dealing.verifies decoded disputer index count privK known shares commitments

end

def sampleKeys : List Participant :=
  [(1, 7), (2, 2), (3, 3), (4, 4)].map fun entry =>
    { address := entry.1, index := entry.1,
      publicKey := Crypto.Scalars.marshalG1 ((entry.2 : ZMod Order) • 1) }

def sampleDealer : Participant :=
  ⟨1, 1, Crypto.Scalars.marshalG1 ((7 : ZMod Order) • 1), [], []⟩

private theorem sampleDealing :
    Dealing Crypto.Scalars.curve sampleKeys 0 ⟨7, Nat.succ⟩ sampleDealer where
  enough := by decide
  indices := by
    intro j participant listed
    obtain ⟨inside, rfl⟩ := List.getElem?_eq_some_iff.mp listed
    have four : j < 4 := inside
    interval_cases j <;> rfl
  accepted := by decide +kernel
  own := by decide +kernel
  key := by decide +kernel
  first j before := absurd before (Nat.not_lt_zero j)

/-- The hash function of the scalars does not tell the two packings of multiples of seven apart. -/
theorem Dealing.shares_safe_seven : ∃ dealt,
    generateShares Crypto.Scalars.curve 7 sampleKeys Nat.succ = .ok dealt ∧
    ∀ j ∈ [1, 2, 3], Received Crypto.Scalars.curve sampleKeys 0 ⟨7, Nat.succ⟩ sampleDealer dealt j
      (j + 1) ∧
      Acquitted Crypto.Scalars.curve 0 ⟨7, Nat.succ⟩ dealt j (j + 1) := by
  obtain ⟨made, safe⟩ := Dealing.shares_safe sampleDealing
  obtain ⟨dealt, generated⟩ := made.mpr (by
    intro participant mem
    obtain ⟨key, _, rfl⟩ := mem_map.mp mem
    exact ⟨_, rfl⟩)
  refine ⟨dealt, generated, ?_⟩
  intro j listed
  have disputer : Disputer Crypto.Scalars.curve sampleKeys 0 j (j + 1) := by
    simp only [mem_cons, not_mem_nil, or_false] at listed
    rcases listed with rfl | rfl | rfl <;> exact ⟨by decide, _, rfl, by decide +kernel⟩
  obtain ⟨received, acquitted⟩ := safe dealt generated j (j + 1) disputer
  refine ⟨received, acquitted ?_⟩
  simp only [mem_cons, not_mem_nil, or_false] at listed
  rcases listed with rfl | rfl | rfl <;> unfold PadsAgree <;> decide +kernel

def sampleDealt (key : ℕ) : List ℕ × List ℕ × List Point :=
  match generateShares Crypto.Scalars.curve key sampleParticipants Nat.succ with
  | .ok dealt => dealt
  | .error _ => ([], [], [])

def sampleDistributed : World :=
  { ValidatorSets.follow Bridge.Ethdkg.sampleJoined ((100, 90, .initializeETHDKG) ::
      sampleParticipants.map (fun participant =>
        (100, participant.address, .register participant.publicKey)) ++
      sampleParticipants.map fun participant => (106, participant.address,
        .distributeShares (sampleDealt participant.index).1
          (sampleDealt participant.index).2.2)) with number := 112 }

def sampleSharedKey : Point :=
  Crypto.Scalars.marshalG1 ((2 : ZMod Order) • (1 : ZMod Order) • (1 : ZMod Order))

def sampleSharedKeyProof : Point :=
  let challenge := (Crypto.Scalars.keccak256
    (encodePoints [G1, sampleSharedKey, G1, sampleSharedKey, G1, G1])).toNat
  (challenge, ((1 - 2 * challenge : ℤ) % Order).toNat)

/-- The second participant proves its shared key to the contract, which then slashes the first. -/
theorem honest_dealer_slashed : ∃ w w' dealt,
    Bridge.Ethdkg.Run Bridge.Ethdkg.sampleContract Crypto.Scalars.curve w ∧
    generateShares Crypto.Scalars.curve 1 sampleParticipants Nat.succ = .ok dealt ∧
    accuseParticipantDistributedBadShares Crypto.Scalars.curve w (Bridge.Ethdkg.sampleMsg 2) 1
      dealt.1 dealt.2.2 sampleSharedKey sampleSharedKeyProof = .ok w' ∧ w'.slashed = {1} := by
  have generated : generateShares curve 1 sampleParticipants Nat.succ = .ok (sampleDealt 1) := by
    decide +kernel
  have slashed : ((accuseParticipantDistributedBadShares curve sampleDistributed
      (Bridge.Ethdkg.sampleMsg 2) 1 (sampleDealt 1).1 (sampleDealt 1).2.2 sampleSharedKey
      sampleSharedKeyProof).toOption.map World.slashed) = some {1} := by
    decide +kernel
  obtain ⟨w', ran, same⟩ := Option.map_eq_some_iff.mp slashed
  exact ⟨sampleDistributed, w', sampleDealt 1,
    (ValidatorSets.follow_run Bridge.Ethdkg.sampleJoined_run _).block 112 (by decide +kernel),
      generated,
    ValidatorSets.toOption_eq_some_iff.mp ran, same⟩

end AliceNet.Layer1.Dkg
