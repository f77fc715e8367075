import AliceNet.Layer1.ShareDisputes

/-! Disputes about group public key shares. -/

namespace AliceNet.Layer1.Dkg

open Outcome SecretSharing List
open Crypto (Curve Order Point Twist)
open Crypto.Cloudflare Crypto.CryptoLibrary Crypto.Scalars
open Bridge.Ethdkg (World Msg Address Contract Run Submitting Enrolled sumCoefficients addDegrees
  computeGpkjStar
  checkParticipants getThreshold hashShares accuseParticipantSubmittedBadGPKJ sampleContract
    sampleMsg)

section

variable {curve : Curve}

/-- The sum of everyone's coefficient of one degree -/
def coefficientSum (rows : List (List curve.G1)) (k : ℕ) : curve.G1 :=
    (rows.map fun row => row.getD k 0).sum

def encodeRows (rows : List (List curve.G1)) : List (List Point) :=
    rows.map (List.map curve.marshalG1)

variable {k threshold : ℕ} {rows : List (List curve.G1)} {commitments : List (List Point)}
  {result : Point}

private theorem arrayAt_encoded {row : List curve.G1} (inside : k < row.length) :
    Bridge.Ethdkg.arrayAt (row.map curve.marshalG1) k = .ok (curve.marshalG1 (row.getD k 0)) := by
  rw [Bridge.Ethdkg.arrayAt, getElem?_map, getElem?_eq_getElem inside, getD_eq_getElem _ _ inside]
  rfl

theorem sumCoefficients_ok (nonempty : rows ≠ []) (lengths : ∀ row ∈ rows, k < row.length) :
    sumCoefficients curve (encodeRows rows) k = .ok (curve.marshalG1 (coefficientSum rows k)) := by
  obtain ⟨row, rest, rfl⟩ := exists_cons_of_ne_nil nonempty
  obtain ⟨first, others⟩ := forall_mem_cons.mp lengths
  refine bind_ok_iff.mpr ⟨_, rfl, bind_ok_iff.mpr ⟨_, arrayAt_encoded first, ?_⟩⟩
  rw [encodeRows, map_cons, drop_one, tail_cons, foldlM_map, coefficientSum, map_cons, sum_cons]
  generalize row.getD k 0 = start
  clear nonempty lengths
  induction rest generalizing start with
  | nil => simp [pure, Except.pure]
  | cons other rest ih =>
    obtain ⟨inside, others⟩ := forall_mem_cons.mp others
    refine bind_ok_iff.mpr ⟨_, bind_ok_iff.mpr ⟨_, arrayAt_encoded inside, mapError_ok_iff.mpr
      (bn128Add_marshal _ _)⟩, (ih others _).trans ?_⟩
    rw [map_cons, sum_cons, add_assoc]

private theorem addDegrees_ok {count : ℕ} (nonempty : rows ≠ [])
    (lengths : ∀ row ∈ rows, k + count ≤ row.length) (index pow : ℕ) (R : curve.G1) :
    addDegrees curve (encodeRows rows) index count k pow (curve.marshalG1 R) =
      .ok (curve.marshalG1 (R +
      ((range count).map fun m => ((pow : ZMod Order) * index ^ (m + 1)) • coefficientSum rows
        (k + m)).sum)) := by
  induction count generalizing k pow R with
  | zero => simp [addDegrees, pure, Except.pure]
  | succ count ih =>
    have inside : ∀ row ∈ rows, k < row.length := fun row member => by
      have bound := lengths row member
      omega
    have power : (mulmod pow index GROUP_ORDER : ZMod Order) =
        (pow : ZMod Order) * index := by
      rw [mulmod, GROUP_ORDER, ZMod.natCast_mod, Nat.cast_mul]
    refine bind_ok_iff.mpr ⟨_, sumCoefficients_ok nonempty inside,
      bind_ok_iff.mpr ⟨_, mapError_ok_iff.mpr (bn128Multiply_marshal _ _),
        bind_ok_iff.mpr ⟨_, mapError_ok_iff.mpr (bn128Add_marshal _ _),
        (ih (fun row member => ?_) _ _).trans ?_⟩⟩⟩
    · have bound := lengths row member
      omega
    · rw [power, range_succ_eq_map, map_cons, sum_cons, map_map, zero_add, pow_one, add_zero,
        add_assoc]
      refine congrArg (fun rest => Except.ok (curve.marshalG1 (R + (_ + sum rest))))
        (map_congr_left ?_)
      intro m _
      simp only [Function.comp_apply, Nat.succ_eq_add_one]
      rw [mul_assoc, ← pow_succ', Nat.add_right_comm k 1 m, Nat.add_assoc k m 1]

private theorem computeGpkjStar_ok (nonempty : rows ≠ [])
    (pos : 1 ≤ threshold) (lengths : ∀ row ∈ rows, row.length = threshold + 1) (index : ℕ) :
    computeGpkjStar curve (encodeRows rows) index threshold =
      .ok (curve.marshalG1 (rows.map fun row => evalAt row (index : ZMod Order)).sum) := by
  have inside : ∀ k ≤ threshold, ∀ row ∈ rows, k < row.length := fun k small row member => by
    rw [lengths row member]
    omega
  have exchanged : (rows.map fun row => evalAt row (index : ZMod Order)).sum =
      ((range (threshold + 1)).map fun k =>
          (index : ZMod Order) ^ k • coefficientSum rows k).sum := by
    have terms : ∀ row ∈ rows, evalAt row (index : ZMod Order) =
        ((range (threshold + 1)).map fun k => (index : ZMod Order) ^ k • row.getD k 0).sum := by
      intro row member
      rw [evalAt_eq_sum, lengths row member]
    rw [map_congr_left terms, sum_map_comm]
    refine congrArg sum (map_congr_left fun k _ => ?_)
    rw [coefficientSum, smul_sum, map_map]
    rfl
  obtain ⟨count, rfl⟩ := Nat.exists_eq_add_of_le pos
  refine bind_ok_iff.mpr ⟨_, sumCoefficients_ok nonempty (inside 0 (Nat.zero_le _)),
    bind_ok_iff.mpr ⟨_, sumCoefficients_ok nonempty (inside 1 pos),
      bind_ok_iff.mpr ⟨_, mapError_ok_iff.mpr (bn128Multiply_marshal _ _),
        bind_ok_iff.mpr ⟨_, mapError_ok_iff.mpr (bn128Add_marshal _ _), ?_⟩⟩⟩⟩
  rw [Nat.add_sub_cancel_left, addDegrees_ok nonempty fun row member =>
    (by rw [lengths row member]; omega), exchanged, Nat.add_comm 1 count, range_succ_eq_map,
    map_cons, sum_cons, range_succ_eq_map, map_cons, map_cons, sum_cons, map_map, map_map, pow_zero,
    one_smul, Nat.succ_eq_add_one, zero_add, pow_one, add_assoc]
  congr 5
  refine map_congr_left fun m _ => ?_
  simp only [Function.comp_apply, Nat.succ_eq_add_one]
  rw [← pow_succ', Nat.add_comm 2 m]

theorem encoded_iff : (∃ rows : List (List curve.G1), commitments = encodeRows rows) ↔
      ∀ row ∈ commitments, ∀ words ∈ row, ∃ P, curve.marshalG1 P = words := by
  have single : ∀ row, (∃ points, map curve.marshalG1 points = row) ↔ ∀ words ∈ row, ∃ P,
      curve.marshalG1 P = words :=
    fun row => Set.ext_iff.mp (Set.range_list_map curve.marshalG1) row
  have all : (∃ rows, map (map curve.marshalG1) rows = commitments) ↔
      ∀ row ∈ commitments, ∃ points, map curve.marshalG1 points = row :=
    Set.ext_iff.mp (Set.range_list_map (map curve.marshalG1)) commitments
  simp only [eq_comm (a := commitments), encodeRows, all, single]

theorem arrayAt_ok_iff : Bridge.Ethdkg.arrayAt items i = .ok item ↔ items[i]? = some item := by
  rw [Bridge.Ethdkg.arrayAt]
  cases items[i]? with
  | none => simp
  | some found => simp

private theorem addAll_decoded (ran : rest.foldlM (fun tmp row => do
      let coefficient ← Bridge.Ethdkg.arrayAt row k
      (bn128Add curve tmp coefficient).mapError .crypto) start = Except.ok result) :
    (rest ≠ [] → ∃ P, curve.marshalG1 P = start) ∧
      ∀ row ∈ rest, ∀ words, row[k]? = some words → ∃ P, curve.marshalG1 P = words := by
  induction rest generalizing start with
  | nil => exact ⟨fun nonempty => (nonempty rfl).elim, fun _ member => absurd member not_mem_nil⟩
  | cons row rest ih =>
    obtain ⟨sum, added, ran⟩ := bind_ok_iff.mp ran
    obtain ⟨words, found, added⟩ := bind_ok_iff.mp added
    obtain ⟨P, Q, first, second, _⟩ := bn128Add_ok_iff.mp (mapError_ok_iff.mp added)
    refine ⟨fun _ => ⟨P, curve.unmarshalG1_eq_some.mp first⟩, forall_mem_cons.mpr ⟨?_, (ih ran).2⟩⟩
    intro words' found'
    obtain rfl := Option.some.inj (found'.symm.trans (arrayAt_ok_iff.mp found))
    exact ⟨Q, curve.unmarshalG1_eq_some.mp second⟩

theorem sumCoefficients_decoded
    (two : 2 ≤ commitments.length) (ran : sumCoefficients curve commitments k = .ok result) :
    ∀ row ∈ commitments, ∀ words, row[k]? = some words → ∃ P, curve.marshalG1 P = words := by
  match commitments, two with
  | row :: second :: rest, _ =>
    obtain ⟨_, head, ran⟩ := bind_ok_iff.mp ran
    obtain rfl := Option.some.inj (arrayAt_ok_iff.mp head)
    obtain ⟨start, found, ran⟩ := bind_ok_iff.mp ran
    obtain ⟨first, others⟩ := addAll_decoded ran
    refine forall_mem_cons.mpr ⟨?_, others⟩
    intro words found'
    obtain rfl := Option.some.inj (found'.symm.trans (arrayAt_ok_iff.mp found))
    exact first (cons_ne_nil _ _)

private theorem addDegrees_decoded {index count pow : ℕ} (two : 2 ≤ commitments.length)
    (ran : addDegrees curve commitments index count k pow start = .ok result) :
    ∀ m, k ≤ m → m < k + count → ∀ row ∈ commitments, ∀ words, row[m]? = some words →
      ∃ P, curve.marshalG1 P = words := by
  induction count generalizing k pow start with
  | zero =>
    intro m low high
    omega
  | succ count ih =>
    obtain ⟨_, summed, ran⟩ := bind_ok_iff.mp ran
    obtain ⟨_, _, ran⟩ := bind_ok_iff.mp ran
    obtain ⟨_, _, ran⟩ := bind_ok_iff.mp ran
    intro m low high
    rcases Nat.eq_or_lt_of_le low with rfl | low
    · exact sumCoefficients_decoded two summed
    · exact ih ran m low (by omega)

private theorem computeGpkjStar_decoded {index : ℕ}
    (two : 2 ≤ commitments.length) (lengths : ∀ row ∈ commitments, row.length = threshold + 1)
    (ran : computeGpkjStar curve commitments index threshold = .ok result) :
    ∃ rows : List (List curve.G1), commitments = encodeRows rows := by
  obtain ⟨_, constant, ran⟩ := bind_ok_iff.mp ran
  obtain ⟨_, linear, ran⟩ := bind_ok_iff.mp ran
  obtain ⟨_, _, ran⟩ := bind_ok_iff.mp ran
  obtain ⟨_, _, ran⟩ := bind_ok_iff.mp ran
  refine encoded_iff.mpr fun row listed words member => ?_
  obtain ⟨k, inside, rfl⟩ := getElem_of_mem member
  have found := getElem?_eq_getElem inside
  have bound := lengths row listed
  match k with
  | 0 => exact sumCoefficients_decoded two constant row listed _ found
  | 1 => exact sumCoefficients_decoded two linear row listed _ found
  | k + 2 => exact addDegrees_decoded two ran (k + 2) (by omega) (by omega) row listed _ found

section

variable {w : World} {threshold : ℕ} (hash : Address → Bytes32) (commitments : Address → List Point)

private theorem checkParticipants_ok {order : List Address}
    (lengths : ∀ account ∈ order, (commitments account).length = threshold + 1)
    (enrolled : ∀ account ∈ order, (w.participant account).nonce = w.dkg.nonce)
    (small : ∀ account ∈ order, (w.participant account).index ≤ 255)
    (hashes : ∀ account ∈ order, (w.participant account).distributedSharesHash =
      curve.keccak256 ((hash account).toBytes ++
      (curve.keccak256 (encodePoints (commitments account))).toBytes))
    (distinct : (order.map fun account => (w.participant account).index).Nodup)
    (fresh : ∀ account ∈ order, bitMap.testBit (w.participant account).index = false) :
    checkParticipants curve w threshold (order.map fun account =>
      (account, hash account, commitments account)) bitMap =
      .ok () := by
  induction order generalizing bitMap with
  | nil => rfl
  | cons account rest ih =>
    rw [forall_mem_cons] at lengths enrolled small hashes fresh
    obtain ⟨other, distinct⟩ := nodup_cons.mp distinct
    refine bind_ok_iff.mpr ⟨(), require_of lengths.1 _,
      bind_ok_iff.mpr ⟨(), require_of ⟨enrolled.1, small.1, fresh.1⟩ _,
      bind_ok_iff.mpr ⟨(), require_of hashes.1 _, ih lengths.2 enrolled.2 small.2 hashes.2 distinct
      ?_⟩⟩⟩
    intro later member
    have different : (w.participant account).index ≠ (w.participant later).index := fun same =>
      other (mem_map.mpr ⟨later, member, same.symm⟩)
    rw [Nat.testBit_or, fresh.2 later member, Bool.false_or, Nat.shiftLeft_eq, one_mul,
      Nat.testBit_two_pow_of_ne different]

private theorem checkParticipants_small {order : List Address}
    (ran : checkParticipants curve w threshold (order.map fun account =>
      (account, hash account, commitments account)) bitMap = .ok ()) :
    ∀ account ∈ order, (w.participant account).index ≤ 255 := by
  induction order generalizing bitMap with
  | nil => exact fun _ member => absurd member not_mem_nil
  | cons account rest ih =>
    obtain ⟨_, _, ran⟩ := bind_ok_iff.mp ran
    obtain ⟨_, checked, ran⟩ := bind_ok_iff.mp ran
    obtain ⟨_, _, ran⟩ := bind_ok_iff.mp ran
    exact forall_mem_cons.mpr ⟨(require_ok_iff.mp checked).2.1, ih ran⟩

end

def Categories.of (categories : Categories) : Verdict → List Participant
  | .good => categories.good
  | .bad => categories.bad
  | .missing => categories.missing

theorem Categories.mem_add (categories : Categories) (participant other : Participant)
    (verdict verdict' : Verdict) :
    other ∈ (categories.add participant verdict).of verdict' ↔
      other = participant ∧ verdict' = verdict ∨ other ∈ categories.of verdict' := by
  cases verdict <;> cases verdict' <;> simp [Categories.add, Categories.of]

private theorem categorizeAll_of
    (ran : categorizeAll curve commitments threshold entries = .ok categories) (verdict : Verdict)
    (participant : Participant) :
    participant ∈ categories.of verdict ↔
      ∃ key, (key, participant) ∈ entries ∧ categorize curve commitments threshold key participant =
        .ok verdict := by
  induction entries generalizing categories with
  | nil =>
    obtain rfl := pure_ok_iff.mp ran
    cases verdict <;> simp [Categories.of]
  | cons entry rest ih =>
    obtain ⟨first, found, ran⟩ := bind_ok_iff.mp ran
    obtain ⟨others, categorized, added⟩ := bind_ok_iff.mp ran
    obtain rfl := pure_ok_iff.mp added
    rw [Categories.mem_add, ih categorized]
    constructor
    · rintro (⟨rfl, rfl⟩ | ⟨key, member, categorized⟩)
      · exact ⟨entry.1, mem_cons_self .., found⟩
      · exact ⟨key, mem_cons_of_mem _ member, categorized⟩
    · rintro ⟨key, member, categorized⟩
      rcases mem_cons.mp member with rfl | later
      · exact .inl ⟨rfl, Except.ok.inj (categorized.symm.trans found)⟩
      · exact .inr ⟨key, later, categorized⟩

private theorem categorizeAll_total {entries : List (Twist × Participant)} :
    (∃ categories, categorizeAll curve commitments threshold entries = .ok categories) ↔
      ∀ entry ∈ entries, ∃ verdict, categorize curve commitments threshold entry.1 entry.2 =
        .ok verdict := by
  induction entries with
  | nil => exact ⟨fun _ _ member => absurd member not_mem_nil, fun _ => ⟨_, rfl⟩⟩
  | cons entry rest ih =>
    rw [forall_mem_cons, ← ih]
    constructor
    · rintro ⟨categories, ran⟩
      obtain ⟨verdict, found, ran⟩ := bind_ok_iff.mp ran
      obtain ⟨others, categorized, _⟩ := bind_ok_iff.mp ran
      exact ⟨⟨verdict, found⟩, others, categorized⟩
    · rintro ⟨⟨verdict, found⟩, others, categorized⟩
      exact ⟨_, bind_ok_iff.mpr ⟨verdict, found, bind_ok_iff.mpr ⟨others, categorized, rfl⟩⟩⟩

end

def Derived (curve : Curve) (commitments : List (List Point)) (index : ℕ) (key : Twist) : Prop :=
  ∃ (rows : List (List curve.G1)) (s : ZMod Order), commitments = encodeRows rows ∧
    (rows.map fun row => evalAt row (index : ZMod Order)).sum = s • curve.g1 ∧
      key = curve.marshalG2 (s • curve.g2)

/-- What a node has stored of a participant -/
def known (w : World) (dealt : Address → List ℕ × List Point) (account : Address) : Participant :=
  ⟨account, (w.participant account).index, (w.participant account).publicKey, (dealt account).2,
    (dealt account).1⟩

section

variable (contract : Contract) (curve : Curve) (w : World) (members : List Address)
  (dealt : Address → List ℕ × List Point) (honest : List Address) (msg : Msg) (accused : Address)

def published : List (List Point) := members.map fun account => (dealt account).2

/-- The last dispute of a round: the honest members have submitted their keys, and one has not. -/
structure Contest : Prop where
  run : Run contract curve w
  window : Submitting w .DisputeGPKJSubmission
  enrolled : Enrolled w.dkg members
  enough : 4 ≤ members.length
  distributed : ∀ account ∈ members,
    (w.participant account).distributedSharesHash = hashShares curve (dealt account).1
      (dealt account).2 ∧ (dealt account).2.length = getThreshold members.length + 1
  member : accused ∈ members
  active : accused ∈ w.validators
  wrong : ¬ Derived curve (published members dealt) (w.participant accused).index
    (w.participant accused).gpkj
  honestMember : ∀ account ∈ honest, account ∈ members
  right : ∀ account ∈ honest, ∀ key,
    Derived curve (published members dealt) (w.participant account).index key →
      (w.participant account).gpkj = key
  accuser : msg.sender ∈ honest
  accuserActive : msg.sender ∈ w.validators
  inert : msg.received = id
  slashable : msg.slashable accused = true

structure Punishable : Prop where
  slashed : ∃ order w', order.Perm members ∧
    accuseParticipantSubmittedBadGPKJ curve w msg order
      (order.map fun account => curve.keccak256 (encodeWords (dealt account).1))
      (published order dealt) accused = .ok w' ∧
    accused ∈ w'.slashed ∧ accused ∉ w'.validators
  categorized : ∃ categories,
    categorizeGroupSigners curve (members.map fun account => (w.participant account).gpkj)
      (members.map (known w dealt)) (published members dealt) = .ok categories ∧
    known w dealt accused ∈ categories.bad ∧ ∀ account ∈ honest, known w dealt account ∈
      categories.good

/-- When both can read what was submitted -/
structure Legible : Prop where
  few : members.length ≤ 255
  counted : members.length = w.validators.card + w.dkg.badParticipants
  commitments : ∃ rows : List (List curve.G1), published members dealt = encodeRows rows
  key : ∃ Q, curve.marshalG2 Q = (w.participant accused).gpkj
  keys : ∀ account ∈ members,
    (w.participant account).gpkj.1 = 0 ∨ ∃ Q, curve.marshalG2 Q = (w.participant account).gpkj
  /-- A node takes every key whose first word is zero for the neutral element. -/
  taken : (w.participant accused).gpkj.1 = 0 →
    ¬ Derived curve (published members dealt) (w.participant accused).index (0, 0, 0, 0)
  mistaken : ∀ account ∈ honest, (w.participant account).gpkj.1 ≠ 0

end

section

variable {contract : Contract} {curve : Curve} {w : World} {members : List Address}
  {dealt : Address → List ℕ × List Point} {honest : List Address} {msg : Msg} {accused : Address}

variable {rows : List (List curve.G1)}

theorem exists_derived {commitments : List (List Point)} (encoded : commitments = encodeRows rows)
    (index : ℕ) :
    ∃ s : ZMod Order, (rows.map fun row => evalAt row (index : ZMod Order)).sum = s • curve.g1 ∧
      ∀ key, Derived curve commitments index key ↔ key = curve.marshalG2 (s • curve.g2) := by
  obtain ⟨s, generated⟩ :=
    curve.generates1 (rows.map fun row => evalAt row (index : ZMod Order)).sum
  refine ⟨s, generated.symm, fun key => ⟨?_, fun same => ⟨rows, s, encoded, generated.symm, same⟩⟩⟩
  rintro ⟨rows', s', encoded', generated', rfl⟩
  have inj : Function.Injective (map (map curve.marshalG1)) :=
    map_injective_iff.mpr (map_injective_iff.mpr fun P Q => marshalG1_inj.mp)
  obtain rfl := inj (encoded'.symm.trans encoded)
  rw [smul_g1_inj.mp (generated'.symm.trans generated.symm)]

private theorem checkGpkj_ok_iff {s : ZMod Order} {valid : Bool} :
    bn128CheckPairing curve (curve.marshalG1 (s • curve.g1)) H2 G1 key =
      .ok valid ↔ ∃ Q, curve.marshalG2 Q = key ∧ decide (Q = s • curve.g2) = valid := by
  have negated : curve.unmarshalG2 H2 = some (-curve.g2) :=
    curve.unmarshalG2_eq_some.mpr curve.marshalG2_neg
  have generator : curve.unmarshalG1 G1 = some curve.g1 :=
    curve.unmarshalG1_eq_some.mpr curve.marshalG1_g1
  rw [bn128CheckPairing, curve.unmarshalG1_marshalG1, negated, generator]
  simp only [← curve.unmarshalG2_eq_some]
  cases curve.unmarshalG2 key with
  | none => simp
  | some Q =>
    simp only [pairingCheck, curve.pairing_balanced_iff curve.g1_ne_zero, Except.ok.injEq,
      Option.some.injEq, exists_eq_left']

theorem zip_published (order : List Address) :
    order.zip ((order.map fun account => curve.keccak256 (encodeWords (dealt account).1)).zip
      (published order dealt)) =
      order.map fun account => (account, curve.keccak256 (encodeWords (dealt account).1),
        (dealt account).2) := by
  rw [published, zip_map']
  conv_lhs => arg 1; rw [← map_id order]
  rw [zip_map']
  rfl

theorem bigIntArrayToG2_ok_iff {Q : curve.G2} :
    bigIntArrayToG2 curve words = .ok Q ↔ words.1 = 0 ∧ Q = 0 ∨ words.1 ≠ 0 ∧ curve.marshalG2 Q =
      words := by
  unfold bigIntArrayToG2
  rw [← curve.unmarshalG2_eq_some]
  split
  · rename_i zero
    simp [zero, eq_comm]
  · rename_i nonzero
    cases curve.unmarshalG2 words with
    | none => simp [nonzero]
    | some found => simp [nonzero]

private theorem categorize_ok_iff (lengths : ∀ row ∈ rows, row.length = threshold + 1) {key : Twist}
    (submitted : key ≠ (0, 0, 0, 0)) {s : ZMod Order}
    (generated : (rows.map fun row => evalAt row (participant.index : ZMod Order)).sum =
      s • curve.g1) :
    categorize curve (encodeRows rows) threshold key participant = .ok verdict ↔
      ∃ Q, bigIntArrayToG2 curve key = .ok Q ∧ verdict = if Q = s • curve.g2 then .good else
        .bad := by
  have star : gpkjStar curve (encodeRows rows) threshold participant.index =
      .ok (s • curve.g1) := by
    rw [← generated]
    exact gpkjStar_ok lengths _
  rw [categorize, if_neg submitted, bind_ok_iff]
  simp only [ok_iff', star, Except.ok.injEq, exists_eq_left', pairingCheck_iff curve.g1_ne_zero,
    eq_comm (a := verdict)]

private theorem marshalG2_eq_zero_iff {Q : curve.G2} :
    (0, 0, 0, 0) = curve.marshalG2 Q ↔ Q = 0 := by
  rw [← curve.marshalG2_zero, curve.marshalG2_injective.eq_iff, eq_comm]

/-- A node can read the key of an account. -/
abbrev Readable (curve : Curve) (w : World) (account : Address) : Prop :=
  (w.participant account).gpkj.1 = 0 ∨ ∃ Q, curve.marshalG2 Q = (w.participant account).gpkj

/-- How a node categorizes the members, and one of them -/
abbrev allCategories (curve : Curve) (w : World) (members : List Address)
    (dealt : Address → List ℕ × List Point) : Except Failure Categories :=
  categorizeGroupSigners curve (members.map fun account => (w.participant account).gpkj)
    (members.map (known w dealt)) (published members dealt)

abbrev category (curve : Curve) (w : World) (members : List Address)
    (dealt : Address → List ℕ × List Point) (account : Address) : Except Failure Verdict :=
  categorize curve (published members dealt) (getThreshold members.length)
    (w.participant account).gpkj (known w dealt account)

section

variable (contest : Contest contract curve w members dealt honest msg accused)

include contest

theorem Contest.submitted (member : account ∈ members) :
    (w.participant account).nonce = w.dkg.nonce ∧
      (w.participant account).phase = .GPKJSubmission ∧ (w.participant account).gpkj ≠
        (0, 0, 0, 0) := by
  obtain ⟨members', inv⟩ := contest.run.inv
  have participating := (contest.enrolled.mem_iff account).mp member
  have member' := (inv.enrolled.mem_iff account).mpr participating
  have phase : (w.participant account).phase = .GPKJSubmission := by
    have reached := inv.reached account member'
    rw [contest.window.current] at reached
    rcases reached with reached | ⟨submission, _⟩
    · exact reached
    · simp [Bridge.Ethdkg.Phase.submission] at submission
  exact ⟨participating.2, phase, inv.announced account member' phase⟩

theorem Contest.lengths (encoded : published members dealt = encodeRows rows) :
    ∀ row ∈ rows, row.length = getThreshold members.length + 1 := by
  intro row listed
  have encoded : row.map curve.marshalG1 ∈ published members dealt := by
    rw [encoded]
    exact mem_map_of_mem listed
  obtain ⟨account, member, same⟩ := mem_map.mp encoded
  rw [← length_map curve.marshalG1, ← same]
  exact (contest.distributed account member).2

theorem Contest.nonempty (encoded : published members dealt = encodeRows rows) : rows ≠ [] := by
  rintro rfl
  have same := congrArg length encoded
  rw [published, length_map, encodeRows, length_map, length_nil] at same
  have enough := contest.enough
  omega

theorem Contest.accuses (few : members.length ≤ 255)
    (counted : members.length = w.validators.card + w.dkg.badParticipants)
    (encoded : ∃ rows : List (List curve.G1), published members dealt = encodeRows rows)
    (key : ∃ Q, curve.marshalG2 Q = (w.participant accused).gpkj) :
    ∃ w', accuseParticipantSubmittedBadGPKJ curve w msg members
      (members.map fun account => curve.keccak256 (encodeWords (dealt account).1))
        (published members dealt) accused =
        .ok w' ∧ accused ∈ w'.slashed ∧ accused ∉ w'.validators := by
  obtain ⟨rows, encoded⟩ := encoded
  obtain ⟨Q, key⟩ := key
  obtain ⟨s, generated, derived⟩ := exists_derived encoded (w.participant accused).index
  obtain ⟨nonce, phase, _⟩ := contest.submitted contest.member
  obtain ⟨nonce', phase', _⟩ := contest.submitted (contest.honestMember _ contest.accuser)
  have threshold := (thresholdForUserCount_bounds contest.enough).1
  have window : Bridge.Ethdkg.disputeWindow w .DisputeGPKJSubmission .GPKJSubmission = .ok () := by
    refine bind_ok_iff.mpr ⟨_, Bridge.Ethdkg.phaseEnd_ok_iff.mpr ⟨contest.window.bounded, rfl⟩, ?_⟩
    rw [if_pos ⟨contest.window.current, contest.window.opened, contest.window.inTime⟩]
    rfl
  have checked : checkParticipants curve w (getThreshold members.length)
      (members.map fun account => (account, curve.keccak256 (encodeWords (dealt account).1),
        (dealt account).2)) 0 =
        .ok () := by
    refine checkParticipants_ok _ _ ?_ ?_ ?_ ?_ ?_ ?_
    · exact fun account member => (contest.distributed account member).2
    · exact fun account member => (contest.submitted member).1
    · exact fun account member => (contest.enrolled.index_bounds member).2.trans few
    · exact fun account member => (contest.distributed account member).1
    · rw [contest.enrolled.indices]
      exact nodup_range' ..
    · exact fun account _ => Nat.zero_testBit _
  have computed : computeGpkjStar curve (published members dealt) (w.participant accused).index
      (getThreshold members.length) = .ok (curve.marshalG1 (s • curve.g1)) := by
    rw [encoded, ← generated]
    exact computeGpkjStar_ok (contest.nonempty encoded) (by exact (Nat.le_succ 1).trans threshold)
      (contest.lengths encoded) _
  have different : Q ≠ s • curve.g2 := by
    rintro rfl
    exact contest.wrong ((derived _).mpr key.symm)
  have invalid := checkGpkj_ok_iff.mpr ⟨Q, key, decide_eq_false different⟩
  have bound : w.dkg.badParticipants + 1 < 2 ^ 16 := by omega
  have sizes : members.length = w.validators.card + w.dkg.badParticipants ∧
      (members.map fun account => curve.keccak256 (encodeWords (dealt account).1)).length =
        w.validators.card + w.dkg.badParticipants ∧
      (published members dealt).length = w.validators.card + w.dkg.badParticipants := by
    rw [length_map, published, length_map]
    exact ⟨counted, counted, counted⟩
  have accuser : Bridge.Ethdkg.onlyValidator w msg = .ok () := require_of contest.accuserActive _
  obtain ⟨v, slashed, gone⟩ : ∃ v, Bridge.Ethdkg.majorSlash w msg accused = .ok v ∧
      accused ∈ v.slashed ∧ accused ∉ v.validators := by
    refine ⟨_, bind_of_ok (require_of contest.slashable _) _, ?_⟩
    rw [contest.inert]
    exact ⟨Finset.mem_insert_self .., Finset.notMem_erase _ _⟩
  have added : Word.add 16 (Bridge.Ethdkg.Revert.panic 0x11) w.dkg.badParticipants 1 =
      .ok (w.dkg.badParticipants + 1) := Word.add_ok_iff.mpr ⟨bound, rfl⟩
  rw [← zip_published, counted] at checked
  rw [counted] at computed
  refine ⟨v.setBadParticipants (w.dkg.badParticipants + 1), ?_, gone⟩
  unfold accuseParticipantSubmittedBadGPKJ
  rw [bind_of_ok accuser, bind_of_ok window, bind_of_ok (require_of contest.active _),
    bind_of_ok (require_of ⟨nonce, phase⟩ _), bind_of_ok (require_of ⟨nonce', phase'⟩ _),
    bind_of_ok (require_of sizes _), bind_of_ok checked, bind_of_ok computed,
    bind_of_ok (mapError_ok_iff.mpr invalid), if_pos rfl, bind_of_ok slashed, bind_of_ok added]
  rfl

theorem Contest.accusation_legible {order : List Address} (all : order.Perm members)
    (ran : accuseParticipantSubmittedBadGPKJ curve w msg order (order.map fun account =>
      curve.keccak256 (encodeWords (dealt account).1)) (published order dealt) accused = .ok w') :
    members.length ≤ 255 ∧ members.length = w.validators.card + w.dkg.badParticipants ∧
      (∃ rows : List (List curve.G1), published members dealt = encodeRows rows) ∧
      ∃ Q, curve.marshalG2 Q = (w.participant accused).gpkj := by
  simp only [accuseParticipantSubmittedBadGPKJ, ok_iff, mapError_ok_iff, zip_published] at ran
  obtain ⟨_, _, _, _, _, _, _, _, _, _, _, ⟨sizes, _⟩, _, checked, star, computed, valid, paired,
    _⟩ := ran
  rw [← sizes, all.length_eq] at checked computed
  rw [all.length_eq] at sizes
  have enough := contest.enough
  refine ⟨?_, sizes, ?_, ?_⟩
  · have last : members.length ∈ members.map fun account => (w.participant account).index := by
      rw [contest.enrolled.indices, mem_range'_1]
      omega
    obtain ⟨account, member, same⟩ := mem_map.mp last
    rw [← same]
    exact checkParticipants_small _ _ checked account (all.mem_iff.mpr member)
  · have lengths : ∀ row ∈ published order dealt, row.length = getThreshold members.length + 1 := by
      intro row listed
      obtain ⟨account, member, rfl⟩ := mem_map.mp listed
      exact (contest.distributed account (all.mem_iff.mp member)).2
    have two : 2 ≤ (published order dealt).length := by
      omega
    have decoded := encoded_iff.mp (computeGpkjStar_decoded two lengths computed)
    exact encoded_iff.mpr fun row listed => decoded row ((all.map _).mem_iff.mpr listed)
  · unfold bn128CheckPairing at paired
    split at paired
    · rename_i _ _ _ Q _ _ _ decoded
      exact ⟨Q, curve.unmarshalG2_eq_some.mp decoded⟩
    · simp at paired

theorem Contest.categorizeGroupSigners_eq :
    allCategories curve w members dealt = categorizeAll curve (published members dealt)
      (getThreshold members.length)
        (members.map fun account => ((w.participant account).gpkj, known w dealt account)) := by
  have lengths : ∀ row ∈ published members dealt, row.length = getThreshold members.length + 1 := by
    intro row listed
    obtain ⟨account, member, rfl⟩ := mem_map.mp listed
    exact (contest.distributed account member).2
  have sizes : (members.map (known w dealt)).length = (members.map fun account =>
      (w.participant account).gpkj).length ∧
      (members.map (known w dealt)).length = (published members dealt).length := by
    simp [published]
  have checked : (published members dealt).forM (fun row =>
      require (row.length = getThreshold members.length + 1)
      (Failure.invalidCommitments (getThreshold members.length + 1) row.length)) = .ok ⟨⟩ :=
    forM_ok_iff.mpr fun row listed => require_of (lengths row listed) _
  rw [allCategories, categorizeGroupSigners, require_of sizes, length_map]
  rw [show thresholdForUserCount members.length = getThreshold members.length from rfl, checked,
    zip_map']
  rfl

theorem Contest.mem_of (ran : allCategories curve w members dealt = .ok categories)
    (member : account ∈ members) (verdict : Verdict) :
    known w dealt account ∈ categories.of verdict ↔
      category curve w members dealt account = .ok verdict := by
  rw [contest.categorizeGroupSigners_eq] at ran
  rw [categorizeAll_of ran]
  constructor
  · rintro ⟨key, listed, found⟩
    obtain ⟨account', _, same⟩ := mem_map.mp listed
    obtain rfl : account' = account :=
      congrArg (fun entry : Twist × Participant => entry.2.address) same
    obtain rfl : _ = key := congrArg Prod.fst same
    exact found
  · exact fun found => ⟨_, mem_map_of_mem member, found⟩

theorem Contest.categorize_iff (encoded : published members dealt = encodeRows rows)
    (member : account ∈ members) {s : ZMod Order}
    (generated : (rows.map fun row => evalAt row ((w.participant account).index : ZMod Order)).sum =
      s • curve.g1) :
    category curve w members dealt account = .ok verdict ↔
        ∃ Q, bigIntArrayToG2 curve (w.participant account).gpkj = .ok Q ∧
          verdict = if Q = s • curve.g2 then .good else .bad := by
  rw [category, encoded]
  exact categorize_ok_iff (contest.lengths encoded) (contest.submitted member).2.2 generated

variable (encoded : published members dealt = encodeRows rows)

include encoded

theorem Contest.bad_iff (legible : Readable curve w accused) :
    category curve w members dealt accused = .ok .bad ↔ ((w.participant accused).gpkj.1 = 0 →
        ¬ Derived curve (published members dealt) (w.participant accused).index (0, 0, 0, 0)) := by
  obtain ⟨s, generated, derived⟩ := exists_derived encoded (w.participant accused).index
  rw [contest.categorize_iff encoded contest.member generated, derived, marshalG2_eq_zero_iff]
  by_cases zero : (w.participant accused).gpkj.1 = 0
  · simp [bigIntArrayToG2_ok_iff, zero, eq_comm (a := (0 : curve.G2))]
  · obtain ⟨Q, same⟩ := legible.resolve_left zero
    have different : Q ≠ s • curve.g2 := by
      rintro rfl
      exact contest.wrong ((derived _).mpr same.symm)
    refine iff_of_true ⟨Q, bigIntArrayToG2_ok_iff.mpr (.inr ⟨zero, same⟩), ?_⟩ fun impossible =>
      (zero impossible).elim
    rw [if_neg different]

theorem Contest.good_iff (listed : account ∈ honest) :
    category curve w members dealt account = .ok .good ↔ (w.participant account).gpkj.1 ≠ 0 := by
  obtain ⟨s, generated, derived⟩ := exists_derived encoded (w.participant account).index
  have member := contest.honestMember account listed
  have right := contest.right account listed _ ((derived _).mpr rfl)
  rw [contest.categorize_iff encoded member generated]
  constructor
  · rintro ⟨Q, decoded, good⟩ zero
    rcases bigIntArrayToG2_ok_iff.mp decoded with ⟨_, rfl⟩ | ⟨nonzero, _⟩
    · have same : (0 : curve.G2) = s • curve.g2 := by
        by_contra different
        rw [if_neg different] at good
        simp at good
      rw [← same, curve.marshalG2_zero] at right
      exact (contest.submitted member).2.2 right
    · exact nonzero zero
  · intro nonzero
    exact ⟨s • curve.g2,
      bigIntArrayToG2_ok_iff.mpr (.inr ⟨nonzero, right.symm⟩), by rw [if_pos rfl]⟩

theorem Contest.categorized_total :
    (∃ categories, allCategories curve w members dealt = .ok categories) ↔
    ∀ account ∈ members, Readable curve w account := by
  rw [contest.categorizeGroupSigners_eq, categorizeAll_total, forall_mem_map]
  refine forall₂_congr fun account member => ?_
  obtain ⟨s, generated, _⟩ := exists_derived encoded (w.participant account).index
  simp only [contest.categorize_iff encoded member generated, bigIntArrayToG2_ok_iff, Readable]
  by_cases zero : (w.participant account).gpkj.1 = 0
  · simp [zero]
  · simp [zero]

theorem Contest.categorized_iff :
    (∃ categories, allCategories curve w members dealt = .ok categories ∧
      known w dealt accused ∈ categories.bad ∧ ∀ account ∈ honest, known w dealt account ∈
        categories.good) ↔
    (∀ account ∈ members, Readable curve w account) ∧
    ((w.participant accused).gpkj.1 = 0 →
      ¬ Derived curve (published members dealt) (w.participant accused).index (0, 0, 0, 0)) ∧
    ∀ account ∈ honest, (w.participant account).gpkj.1 ≠ 0 := by
  constructor
  · rintro ⟨categories, ran, bad, good⟩
    have keys := (contest.categorized_total encoded).mp ⟨categories, ran⟩
    refine ⟨keys, ?_, fun account listed => ?_⟩
    · exact (contest.bad_iff encoded (keys _ contest.member)).mp
        ((contest.mem_of ran contest.member .bad).mp bad)
    · exact (contest.good_iff encoded listed).mp
        ((contest.mem_of ran (contest.honestMember account listed) .good).mp (good account listed))
  · rintro ⟨keys, taken, mistaken⟩
    obtain ⟨categories, ran⟩ := (contest.categorized_total encoded).mpr keys
    refine ⟨categories, ran, ?_, fun account listed => ?_⟩
    · exact (contest.mem_of ran contest.member .bad).mpr
        ((contest.bad_iff encoded (keys _ contest.member)).mpr taken)
    · exact (contest.mem_of ran (contest.honestMember account listed) .good).mpr
        ((contest.good_iff encoded listed).mpr (mistaken account listed))

end

/-- A wrong key is punishable if and only if what was submitted is legible to the contract and to
the nodes. -/
theorem Contest.punishable_iff
    (contest : Contest contract curve w members dealt honest msg accused) :
    Punishable curve w members dealt honest msg accused ↔
      Legible curve w members dealt honest accused := by
  constructor
  · rintro ⟨⟨order, w', all, ran, _⟩, categorized⟩
    obtain ⟨few, counted, ⟨rows, encoded⟩, key⟩ := contest.accusation_legible all ran
    obtain ⟨keys, taken, mistaken⟩ := (contest.categorized_iff encoded).mp categorized
    exact ⟨few, counted, ⟨rows, encoded⟩, key, keys, taken, mistaken⟩
  · rintro ⟨few, counted, ⟨rows, encoded⟩, key, keys, taken, mistaken⟩
    obtain ⟨w', ran, slashed⟩ := contest.accuses few counted ⟨rows, encoded⟩ key
    exact ⟨⟨members, w', Perm.refl _, ran, slashed⟩,
      (contest.categorized_iff encoded).mpr ⟨keys, taken, mistaken⟩⟩

end

def sampleCalls (key : Twist) : World :=
  ValidatorSets.follow Bridge.Ethdkg.sampleJoined (ValidatorSets.sampleRound [1, 2, 3, 4] 100 ++
    [(158, 1, .submitGPKJ (12, 0, 0, 0)), (158, 2, .submitGPKJ (28, 0, 0, 0)),
      (158, 3, .submitGPKJ (52, 0, 0, 0)), (158, 4, .submitGPKJ key)])

def sampleContested (key : Twist) : World := { sampleCalls key with number := 170 }

def samplePublished : List ℕ × List Point := (List.replicate 3 1, List.replicate 3 G1)

def sampleStored (w : World) (key : Twist) : Prop :=
  w.dkg.ethdkgPhase = .DisputeGPKJSubmission ∧ w.dkg.phaseStartBlock = 164 ∧ w.dkg.phaseLength =
    40 ∧
  w.dkg.badParticipants = 0 ∧ w.validators = {1, 2, 3, 4} ∧ w.slashed = ∅ ∧ w.dkg.nonce ≠ 0 ∧
  ∀ entry ∈ [(1, (12, 0, 0, 0)), (2, (28, 0, 0, 0)), (3, (52, 0, 0, 0)), (4, key)],
    (w.participant entry.1).nonce = w.dkg.nonce ∧ (w.participant entry.1).index = entry.1 ∧
    (w.participant entry.1).gpkj = entry.2 ∧
    (w.participant entry.1).distributedSharesHash =
      hashShares curve samplePublished.1 samplePublished.2

instance (w : World) (key : Twist) : Decidable (sampleStored w key) := by
  unfold sampleStored
  infer_instance

private theorem sampleStored_undecodable :
    (sampleCalls (1, 1, 0, 0)).number ≤ 170 ∧ sampleStored (sampleContested (1, 1, 0, 0)) (1, 1, 0,
      0) := by
  decide +kernel

private theorem sampleStored_wrong :
    (sampleCalls (5, 0, 0, 0)).number ≤ 170 ∧ sampleStored (sampleContested (5, 0, 0, 0)) (5, 0, 0,
      0) := by
  decide +kernel

theorem sampleContested_run (before : (sampleCalls key).number ≤ 170) :
    Run sampleContract curve (sampleContested key) :=
  (ValidatorSets.follow_run Bridge.Ethdkg.sampleJoined_run _).block 170 before

def sampleRows : List (List curve.G1) := List.replicate 4 (List.replicate 3 (1 : ZMod Order))

theorem samplePublished_rows (four : members.length = 4) :
    published members (fun _ => samplePublished) = encodeRows sampleRows := by
  rw [published, map_const', four]
  decide +kernel

def sampleKey (index : ℕ) : Twist :=
  curve.marshalG2 (((4 * (1 + index + index ^ 2) : ℕ) : ZMod Order) • curve.g2)

private theorem sampleDerived_iff (four : members.length = 4) (index : ℕ) (key : Twist) :
    Derived curve (published members fun _ => samplePublished) index key ↔
      key = sampleKey index := by
  obtain ⟨s, generated, derived⟩ := exists_derived (samplePublished_rows four) index
  have value : (sampleRows.map fun row => evalAt row (index : ZMod Order)).sum =
      ((4 * (1 + index + index ^ 2) : ℕ) : ZMod Order) • curve.g1 := by
    show ((replicate 4 (replicate 3 (1 : ZMod Order))).map fun row =>
      evalAt row (index : ZMod Order)).sum =
      ((4 * (1 + index + index ^ 2) : ℕ) : ZMod Order) • (1 : ZMod Order)
    simp only [replicate, map_cons, map_nil, sum_cons, sum_nil, evalAt_cons, evalAt_nil,
      smul_eq_mul]
    push_cast
    ring
  rw [derived, smul_g1_inj.mp (generated.symm.trans value)]
  rfl

theorem sampleContest (run : Run sampleContract curve w) (number : w.number = 170)
    (stored : sampleStored w key) (wrong : key ≠ sampleKey 4) :
    Contest sampleContract curve w [1, 2, 3, 4] (fun _ => samplePublished) [1, 2, 3]
      (sampleMsg 1) 4 := by
  obtain ⟨phase, start, length, bad, validators, slashed, opened, listed⟩ := stored
  obtain ⟨members, inv⟩ := run.inv
  have window : Submitting w .DisputeGPKJSubmission := by
    refine ⟨phase, ?_, ?_, ?_⟩ <;> simp [start, length, number]
  obtain ⟨size, _⟩ := inv.populated (by rw [phase]; decide)
    (window.not_over (by rw [start]; decide) (by decide))
  rw [validators, slashed] at size
  simp only [forall_mem_cons, not_mem_nil, false_imp_iff, implies_true, and_true] at listed
  obtain ⟨⟨nonce1, index1, key1, hash1⟩, ⟨nonce2, index2, key2, hash2⟩,
    ⟨nonce3, index3, key3, hash3⟩, ⟨nonce4, index4, key4, hash4⟩⟩ := listed
  obtain rfl : members = [1, 2, 3, 4] := by
    refine inv.enrolled.eq_of_indices opened size ?_ ?_
    · simpa using ⟨nonce1, nonce2, nonce3, nonce4⟩
    · simp [index1, index2, index3, index4, range']
  refine ⟨run, window, inv.enrolled, le_rfl, ?_, by decide, ?_, ?_, by decide, ?_, by decide, ?_,
    rfl, rfl⟩
  · simpa using ⟨⟨hash1, rfl⟩, ⟨hash2, rfl⟩, ⟨hash3, rfl⟩, ⟨hash4, rfl⟩⟩
  · rw [validators]
    decide
  · rw [index4, key4, sampleDerived_iff rfl]
    exact wrong
  · simp only [forall_mem_cons, not_mem_nil, false_imp_iff, implies_true, and_true, index1, index2,
      index3, key1,
      key2, key3, @sampleDerived_iff [1, 2, 3, 4] rfl, forall_eq]
    decide +kernel
  · rw [validators]
    decide

/-- The fourth member's key is a point, so that its four words can be held against it. -/
theorem Contest.punishable_four :
    Contest sampleContract curve (sampleContested (5, 0, 0, 0)) [1, 2, 3, 4]
      (fun _ => samplePublished) [1, 2, 3] (sampleMsg 1) 4 ∧
    Punishable curve (sampleContested (5, 0, 0, 0)) [1, 2, 3, 4] (fun _ => samplePublished)
      [1, 2, 3] (sampleMsg 1) 4 := by
  obtain ⟨before, stored⟩ := sampleStored_wrong
  have contest := sampleContest (sampleContested_run before) rfl stored (by decide +kernel)
  obtain ⟨_, _, _, bad, validators, _, _, listed⟩ := stored
  simp only [forall_mem_cons, not_mem_nil, false_imp_iff, implies_true, and_true] at listed
  obtain ⟨⟨_, _, key1, _⟩, ⟨_, _, key2, _⟩, ⟨_, _, key3, _⟩, ⟨_, _, key4, _⟩⟩ := listed
  refine ⟨contest, (Contest.punishable_iff contest).mpr
    ⟨by decide, ?_, ⟨_, samplePublished_rows rfl⟩, ?_, ?_, ?_, ?_⟩⟩
  · rw [validators, bad]
    rfl
  · rw [key4]
    exact ⟨(5 : ZMod Order), by decide +kernel⟩
  · simp only [forall_mem_cons, not_mem_nil, false_imp_iff, implies_true, and_true]
    refine ⟨.inr ⟨(12 : ZMod Order), ?_⟩, .inr ⟨(28 : ZMod Order), ?_⟩,
      .inr ⟨(52 : ZMod Order), ?_⟩, .inr ⟨(5 : ZMod Order), ?_⟩⟩
    · rw [key1]
      decide +kernel
    · rw [key2]
      decide +kernel
    · rw [key3]
      decide +kernel
    · rw [key4]
      decide +kernel
  · rw [key4]
    exact fun zero => absurd zero (by decide)
  · simp only [forall_mem_cons, not_mem_nil, false_imp_iff, implies_true, and_true, key1, key2,
      key3]
    decide

/-- Words that are no point of the twist make every accusation revert. -/
theorem undecodable_unpunished :
    Contest sampleContract curve (sampleContested (1, 1, 0, 0)) [1, 2, 3, 4]
      (fun _ => samplePublished) [1, 2, 3] (sampleMsg 1) 4 ∧
    ¬ Punishable curve (sampleContested (1, 1, 0, 0)) [1, 2, 3, 4] (fun _ => samplePublished)
      [1, 2, 3] (sampleMsg 1) 4 := by
  obtain ⟨before, stored⟩ := sampleStored_undecodable
  have contest := sampleContest (sampleContested_run before) rfl stored (by decide)
  refine ⟨contest, ?_⟩
  rintro ⟨⟨order, w', all, ran, _⟩, _⟩
  obtain ⟨_, _, _, Q, decoded⟩ := contest.accusation_legible all ran
  obtain ⟨_, _, _, _, _, _, _, listed⟩ := stored
  simp only [forall_mem_cons, not_mem_nil, false_imp_iff, implies_true, and_true] at listed
  obtain ⟨_, _, _, _, _, key, _⟩ := listed
  have impossible : curve.unmarshalG2 (1, 1, 0, 0) = none := by decide
  rw [curve.unmarshalG2_eq_some.mpr (decoded.trans key)] at impossible
  simp at impossible

end AliceNet.Layer1.Dkg
