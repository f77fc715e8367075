import AliceNet.Crypto.Dkg

/-! What the functions of the key generation compute. -/

namespace AliceNet.Crypto.Cloudflare

open Outcome
open SecretSharing
open List

def polyAt (privCoefs : List ℕ) (j : ℕ) : ZMod Order :=
  evalAt (privCoefs.map (Nat.cast : ℕ → ZMod Order)) (j : ZMod Order)

theorem order_pos : 0 < Order := order_prime.pos

instance : NeZero Order := ⟨order_pos.ne'⟩

private theorem addTerms_lt (small : res < Order) : addTerms j rest power res < Order := by
  induction rest generalizing power res with
  | nil => exact small
  | cons c rest ih => exact ih (Nat.mod_lt _ order_pos)

private theorem addTerms_cast (j : ℕ) (rest : List ℕ) (power res : ℕ) :
    (addTerms j rest power res : ZMod Order) =
      res + power * (j * evalAt (rest.map (Nat.cast : ℕ → ZMod Order)) (j : ZMod Order)) := by
  induction rest generalizing power res with
  | nil => simp [addTerms]
  | cons c rest ih =>
    rw [addTerms, ih, map_cons, evalAt_cons, ZMod.natCast_mod, Nat.cast_add, ZMod.natCast_mod]
    push_cast
    rw [smul_eq_mul]
    ring

theorem privatePolyEval_ok (nonempty : privCoefs ≠ []) (j : ℕ) :
    privatePolyEval privCoefs j = .ok (polyAt privCoefs j).val := by
  cases privCoefs with
  | nil => exact (nonempty rfl).elim
  | cons c rest =>
    have value : (addTerms j rest 1 (c % Order) : ZMod Order) = polyAt (c :: rest) j := by
      rw [addTerms_cast, polyAt, map_cons, evalAt_cons, ZMod.natCast_mod, Nat.cast_one, one_mul,
        smul_eq_mul]
    rw [privatePolyEval, ← value, ZMod.val_natCast_of_lt (addTerms_lt (Nat.mod_lt _ order_pos))]

section

variable {curve : Curve}

private theorem addCommitments_eq (j : ℕ) (rest : List curve.G1) (k : ℕ) (res : curve.G1) :
    addCommitments j rest k res = res + (j : ZMod Order) ^ k • evalAt rest (j : ZMod Order) := by
  induction rest generalizing k res with
  | nil => simp [addCommitments]
  | cons P rest ih =>
    rw [addCommitments, ih, evalAt_cons, ZMod.natCast_mod, Nat.cast_pow, smul_add, smul_smul,
      ← pow_succ, add_assoc]

theorem compareSharedSecret_ok (pos : 0 < j) (nonempty : pubCoefs ≠ []) :
    compareSharedSecret curve secret j pubCoefs =
      .ok (decide ((secret : ZMod Order) • curve.g1 = evalAt pubCoefs (j : ZMod Order))) := by
  cases pubCoefs with
  | nil => exact (nonempty rfl).elim
  | cons P rest =>
    rw [compareSharedSecret, require_of pos]
    simp only [addCommitments_eq, pow_one, evalAt_cons]
    rfl

theorem evalAt_generatePublicCoefs (privCoefs : List ℕ) (j : ℕ) :
    evalAt (generatePublicCoefs curve privCoefs) (j : ZMod Order) =
      polyAt privCoefs j • curve.g1 := by
  rw [polyAt, ← evalAt_map_smul, map_map]
  rfl

theorem decrypt_encrypt (secretValue privK privK' participantIndex : ℕ) :
    decrypt curve (encrypt curve secretValue privK ((privK' : ZMod Order) • curve.g1)
      participantIndex) privK'
      ((privK : ZMod Order) • curve.g1) participantIndex = secretValue := by
  rw [decrypt, encrypt, smul_comm (privK' : ZMod Order), ← Nat.xor_assoc, Nat.xor_self,
    Nat.zero_xor]

theorem verifyDLEQProofG1_generated {alpha w : ℕ} (random : w ≠ 0) :
    ∃ proof, generateDLEQProofG1 curve x1 ((alpha : ZMod Order) • x1) x2 ((alpha : ZMod Order) • x2)
      alpha w =
        .ok proof ∧
      verifyDLEQProofG1 curve x1 ((alpha : ZMod Order) • x1) x2 ((alpha : ZMod Order) • x2) proof =
        .ok () := by
  refine ⟨_, bind_ok_iff.mpr ⟨(), require_of random _, rfl⟩, ?_⟩
  have cancels : ∀ (c : ℕ) (x : curve.G1), (((w - alpha * c : ℤ) % Order).toNat : ZMod Order) • x +
      (c : ZMod Order) • (alpha : ZMod Order) • x = (w : ZMod Order) • x := by
    intro c x
    have residue : ((((w - alpha * c : ℤ) % Order).toNat : ℕ) : ZMod Order) = w - alpha * c := by
      rw [← Int.cast_natCast,
        Int.toNat_of_nonneg (Int.emod_nonneg _ (by exact_mod_cast order_pos.ne')), ZMod.intCast_mod]
      push_cast
      rfl
    rw [residue, smul_smul, ← add_smul]
    congr 1
    ring
  simp only [verifyDLEQProofG1, cancels, require_ok_iff]

private theorem filter_zipIdx_ne (items : List α) (start i : ℕ) :
    (items.zipIdx start).filter (fun entry => entry.2 ≠ start + i) =
      (items.zipIdx start).eraseIdx i := by
  induction items generalizing start i with
  | nil => rfl
  | cons item rest ih =>
    cases i with
    | zero =>
      rw [zipIdx_cons, filter_cons_of_neg (by simp), eraseIdx_cons_zero, filter_eq_self]
      intro entry mem
      have after := (mem_zipIdx mem).1
      simp only [decide_eq_true_eq]
      omega
    | succ i =>
      rw [zipIdx_cons, filter_cons_of_pos (by simp), eraseIdx_cons_succ, ← ih]
      simp only [Nat.add_assoc, Nat.add_comm 1]

theorem others_eq_eraseIdx (userIndex : ℕ) (items : List α) :
    others userIndex items = items.zipIdx.eraseIdx userIndex := by
  rw [others, ← filter_zipIdx_ne]
  simp only [Nat.zero_add]

theorem others_map (userIndex : ℕ) (items : List α) (f : α → β) :
    others userIndex (items.map f) = (others userIndex items).map (Prod.map f id) := by
  rw [others, zipIdx_map, filter_map]
  rfl

/-- Where the entry of another participant is found -/
def positionOf (userIndex j : ℕ) : ℕ := if userIndex < j then j - 1 else j

theorem others_getElem? (different : j ≠ userIndex) (found : items[j]? = some item) :
    (others userIndex items)[positionOf userIndex j]? = some (item, j) := by
  rw [others_eq_eraseIdx, getElem?_eraseIdx, positionOf]
  by_cases later : userIndex < j
  · rw [if_pos later, if_neg (by omega), getElem?_zipIdx, Nat.sub_add_cancel (by omega), found]
    simp
  · rw [if_neg later, if_pos (by omega), getElem?_zipIdx, found]
    simp

theorem others_length (inside : userIndex < items.length) :
    (others userIndex items).length = items.length - 1 := by
  rw [others_eq_eraseIdx, length_eraseIdx_of_lt (by simpa using inside), length_zipIdx]

theorem sum_others [AddCommMonoid M] {items : List α} {userIndex : ℕ}
    (found : items[userIndex]? = some item) (f : α × ℕ → M) :
    f (item, userIndex) + ((others userIndex items).map f).sum = (items.zipIdx.map f).sum := by
  obtain ⟨inside, rfl⟩ := List.getElem?_eq_some_iff.mp found
  have bound : userIndex < items.zipIdx.length := by rwa [length_zipIdx]
  rw [others_eq_eraseIdx, ← ((getElem_cons_eraseIdx_perm bound).map f).sum_eq, map_cons, sum_cons,
    getElem_zipIdx, Nat.zero_add]

section

variable {pubKs : List curve.G1}

theorem findPubKIndex_ok (found : pubKs[i]? = some pubK)
    (first : ∀ j < i, pubKs[j]? ≠ some pubK) : findPubKIndex pubK pubKs = .ok i := by
  obtain ⟨inside, same⟩ := List.getElem?_eq_some_iff.mp found
  have located : pubKs.idxOf? pubK = some i := by
    refine idxOf?_eq_some_iff.mpr ⟨inside, same, ?_⟩
    intro j before equal
    exact first j before (List.getElem?_eq_some_iff.mpr ⟨before.trans inside, equal⟩)
  rw [findPubKIndex, located]

theorem findPubKIndex_of_nodup (nodup : pubKs.Nodup)
    (found : pubKs[i]? = some pubK) : findPubKIndex pubK pubKs = .ok i := by
  refine findPubKIndex_ok found ?_
  intro j before same
  obtain ⟨inside, _⟩ := List.getElem?_eq_some_iff.mp found
  exact before.ne ((getElem?_inj (before.trans inside) nodup).mp (same.trans found.symm))

theorem ne_nil_of_findPubKIndex (found : findPubKIndex pubK pubKs = .ok userIndex) :
    pubKs ≠ [] := by
  rintro rfl
  cases found

theorem generateSecretShares_ok (nonempty : privCoefs ≠ [])
    (found : findPubKIndex pubK pubKs = .ok userIndex) :
    generateSecretShares curve pubK privCoefs pubKs =
      .ok ((others userIndex pubKs).map fun entry => (polyAt privCoefs (entry.2 + 1)).val) := by
  rw [generateSecretShares, require_of (ne_nil_of_findPubKIndex found), found]
  exact mapM_of_ok fun entry _ => privatePolyEval_ok nonempty _

theorem generateEncryptedShares_ok {privK : ℕ}
    (found : findPubKIndex ((privK : ZMod Order) • curve.g1) pubKs = .ok userIndex)
    (secret : curve.G1 × ℕ → ℕ) :
    generateEncryptedShares curve ((others userIndex pubKs).map secret) privK pubKs =
      .ok ((others userIndex pubKs).map fun entry =>
        encrypt curve (secret entry) privK entry.1 (entry.2 + 1)) := by
  rw [generateEncryptedShares, require_of (ne_nil_of_findPubKIndex found), found]
  refine bind_ok_iff.mpr ⟨(), rfl, bind_ok_iff.mpr ⟨userIndex, rfl,
    bind_ok_iff.mpr ⟨(), require_of (by rw [length_map]) _, ?_⟩⟩⟩
  rw [zipWith_map_right, zipWith_self]
  rfl

theorem condenseCommitments_ok (found : findPubKIndex pubK pubKs = .ok userIndex)
    (count : combinedCommitments.length = pubKs.length)
    (lengths : ∀ shares ∈ combinedCommitments, shares.length = pubKs.length - 1) (share : ℕ → ℕ)
    (shares : ∀ j row, j ≠ userIndex → combinedCommitments[j]? = some row →
      row[positionOf j userIndex]? = some (share j)) :
    condenseCommitments curve pubK combinedCommitments pubKs =
      .ok ((others userIndex pubKs).map fun entry => share entry.2) := by
  have positions : (others userIndex combinedCommitments).map Prod.snd =
      (others userIndex pubKs).map Prod.snd := by
    rw [others_eq_eraseIdx, others_eq_eraseIdx, ← eraseIdx_map, ← eraseIdx_map, zipIdx_map_snd,
      zipIdx_map_snd, count]
  have condensed : condenseCommitments curve pubK combinedCommitments pubKs =
      .ok ((others userIndex combinedCommitments).map fun entry => share entry.2) := by
    rw [condenseCommitments, found, require_of count]
    refine mapM_of_ok ?_
    rintro ⟨row, j⟩ mem
    obtain ⟨listed, different⟩ := mem_filter.mp mem
    have located : combinedCommitments[j]? = some row := mk_mem_zipIdx_iff_getElem?.mp listed
    have different : j ≠ userIndex := by simpa using different
    have place : (if userIndex < j then userIndex else userIndex - 1) = positionOf j userIndex := by
      rw [positionOf]
      split <;> split <;> omega
    rw [require_of (lengths row (mem_of_getElem? located)), place, arrayAt,
      shares j row different located]
    rfl
  have same := congrArg (map share) positions
  rw [map_map, map_map] at same
  exact condensed.trans (congrArg Except.ok same)

theorem generateDecryptedShares_ok {privK : ℕ}
    (found : findPubKIndex ((privK : ZMod Order) • curve.g1) pubKs = .ok userIndex)
    (inside : userIndex < pubKs.length) (share : curve.G1 × ℕ → ℕ) :
    generateDecryptedShares curve privK ((others userIndex pubKs).map share) pubKs =
      .ok ((others userIndex pubKs).map fun entry =>
        decrypt curve (share entry) privK entry.1 (userIndex + 1)) := by
  have length : ((others userIndex pubKs).map share).length + 1 = pubKs.length := by
    rw [length_map, others_length inside]
    omega
  rw [generateDecryptedShares, require_of length, found]
  refine bind_ok_iff.mpr ⟨(), rfl, bind_ok_iff.mpr ⟨userIndex, rfl, ?_⟩⟩
  rw [zipWith_map_right, zipWith_self]
  rfl

end

end

private theorem modInverse_cast {g : ℤ} (invertible : (g : ZMod Order) ≠ 0) :
    (modInverse g : ZMod Order) = (g : ZMod Order)⁻¹ := by
  have coprime : Int.gcd g Order = 1 := by
    rw [Int.gcd_comm, ← Int.isCoprime_iff_gcd_eq_one]
    refine (Nat.prime_iff_prime_int.mp order_prime).coprime_iff_not_dvd.mpr ?_
    rwa [← ZMod.intCast_zmod_eq_zero_iff_dvd]
  rw [modInverse, if_pos coprime, Int.cast_natCast, ZMod.natCast_zmod_val]

private theorem liRjPartialConst_cast {k j : ℕ} (different : (k : ZMod Order) ≠ j) :
    (liRjPartialConst k j : ZMod Order) = k / (k - j) := by
  have invertible : ((k - j : ℤ) : ZMod Order) ≠ 0 := by
    push_cast
    exact sub_ne_zero.mpr different
  rw [liRjPartialConst, ← Int.cast_natCast,
    Int.toNat_of_nonneg (Int.emod_nonneg _ (by exact_mod_cast order_pos.ne')), ZMod.intCast_mod,
    Int.cast_mul, modInverse_cast invertible, div_eq_mul_inv]
  push_cast
  rfl

private theorem liRj_cast {idxJ : ℕ}
    (distinct : ∀ idxK ∈ taken, idxJ ≠ idxK → (idxK : ZMod Order) ≠ idxJ) :
    (liRj taken idxJ : ZMod Order) = weight (taken.map (Nat.cast : ℕ → ZMod Order)) idxJ := by
  suffices general : ∀ start : ℕ, ((taken.foldl (fun Rj idxK =>
      if idxJ = idxK then Rj else Rj * liRjPartialConst idxK idxJ % Order) start : ℕ) :
        ZMod Order) =
      start * weight (taken.map (Nat.cast : ℕ → ZMod Order)) idxJ by
    rw [liRj, general, Nat.cast_one, one_mul]
  induction taken with
  | nil => simp [weight]
  | cons idxK rest ih =>
    rw [forall_mem_cons] at distinct
    intro start
    rw [foldl_cons, ih distinct.2, map_cons]
    by_cases same : idxJ = idxK
    · rw [if_pos same, weight, weight, filter_cons_of_neg (by simp [same])]
    · rw [if_neg same, weight, weight, filter_cons_of_pos (by simpa using distinct.1 same),
        map_cons, prod_cons, ZMod.natCast_mod, Nat.cast_mul,
        liRjPartialConst_cast (distinct.1 same), mul_assoc]

section

variable {curve : Curve}

private theorem foldl_add_eq_sum [AddCommMonoid M] (items : List α) (f : α → M) (start : M) :
    items.foldl (fun sum item => sum + f item) start = start + (items.map f).sum := by
  induction items generalizing start with
  | nil => simp
  | cons item rest ih => rw [foldl_cons, ih, map_cons, sum_cons, add_assoc]

private theorem take_zip_map (items : List α) (f : α → β) (count : ℕ) :
    (items.take count).zip (items.map f) = (items.take count).map fun item => (item, f item) := by
  induction items generalizing count with
  | nil => simp
  | cons item rest ih =>
    cases count with
    | zero => simp
    | succ count => rw [take_succ_cons, map_cons, map_cons, zip_cons_cons, ih]

theorem aggregateSignatures_ok {indices : List ℕ} (enough : threshold < indices.length)
    (inj : ∀ idxK ∈ indices, ∀ idxJ ∈ indices, (idxK : ZMod Order) = idxJ → idxK = idxJ)
    (sig : ℕ → curve.G1) :
    aggregateSignatures (indices.map sig) indices threshold =
      .ok ((indices.take (threshold + 1)).map fun idxJ : ℕ =>
        weight ((indices.take (threshold + 1)).map (Nat.cast : ℕ → ZMod Order))
          (idxJ : ZMod Order) • sig idxJ).sum := by
  rw [aggregateSignatures, require_of (by rw [length_map]), require_of (by rwa [length_map])]
  refine bind_ok_iff.mpr ⟨(), rfl, bind_ok_iff.mpr ⟨(), rfl, ?_⟩⟩
  rw [lagrangeInterpolationG1, require_of (by rw [length_map])]
  refine bind_ok_iff.mpr ⟨(), rfl, pure_ok_iff.mpr ?_⟩
  refine (foldl_add_eq_sum _ (fun entry : ℕ × curve.G1 =>
    (liRj (indices.take (threshold + 1)) entry.1 : ZMod Order) • entry.2) 0).trans ?_
  rw [zero_add, take_zip_map, map_map]
  refine congrArg sum (map_congr_left ?_)
  intro idxJ mem
  have weighted : (liRj (indices.take (threshold + 1)) idxJ : ZMod Order) = _ := liRj_cast (by
    intro idxK other different same
    exact different (inj idxK (mem_of_mem_take other) idxJ (mem_of_mem_take mem) same).symm)
  exact congrArg (· • sig idxJ) weighted

end

end AliceNet.Crypto.Cloudflare
