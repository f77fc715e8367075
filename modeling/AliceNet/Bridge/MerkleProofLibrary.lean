import AliceNet.Library.MerklePath
import AliceNet.BadgerTrie.Correctness

/-! Merkle proofs as the contracts check them. -/

namespace AliceNet.Bridge.MerkleProofLibrary

open MerkleTrie Outcome
open BadgerTrie (CollisionFree Run TrieHeight bitIsSet leafInput ref_word)

structure BytesMemory where
  data : Bytes
  after : ℕ → UInt8

def BytesMemory.byteAt (self : BytesMemory) (i : ℕ) : UInt8 :=
  self.data.getD i (self.after (i - self.data.length))

def BytesMemory.mload (self : BytesMemory) (offset : ℕ) : Bytes32 :=
  Bytes32.ofBytes ((List.range 32).map fun i => self.byteAt (offset + i))

/-- `MerkleProofParserLibrary.MerkleProof` -/
structure MerkleProof where
  keyHeight : UInt16
  key : Bytes32
  proofKey : Bytes32
  proofValue : Bytes32
  bitmap : BytesMemory
  auditPath : BytesMemory

inductive Revert
  | InvalidProofHeight (proofHeight : UInt16)
  | InclusionZero
  | ProofDoesNotMatchTrieRoot
  | DefaultLeafNotFoundInKeyPath
  | ProvidedLeafNotFoundInKeyPath
  | InvalidNonInclusionMerkleProof
  deriving DecidableEq, Repr

/-- An index above 255 shifts everything out. -/
def bitSet (self : BytesMemory) (index : ℕ) : Bool :=
  (self.mload 0).getMsbD index

def bitSetBytes32 (self : Bytes32) (index : ℕ) : Bool :=
  self.getMsbD index

def defaultLeaf : Bytes32 :=
  0xbc36789e7a1e281436464229828f817d6612f7b477d66591ff96a9e064bcc98a

section

variable (keccak256 : Bytes → Bytes32)

def computeLeafHash (key value : Bytes32) (proofHeight : UInt16) : Except Revert Bytes32 := do
  require (proofHeight.toNat ≤ 256) (.InvalidProofHeight proofHeight)
  pure (keccak256 (key.toBytes ++ (value.toBytes ++ [UInt8.ofNat (256 - proofHeight.toNat)])))

def checkLoop (auditPath bitmap : BytesMemory) (key : Bytes32)
    (proofHeight : ℕ) : (left proofIdx : ℕ) → (h : Bytes32) →
    Bytes32
  | 0, _, h => h
  | left + 1, proofIdx, h =>
    let i := proofHeight - (left + 1)
    let (el, proofIdx) := if bitSet bitmap i then (auditPath.mload proofIdx, proofIdx + 32) else
      (defaultLeaf, proofIdx)
    let h := if bitSetBytes32 key (proofHeight - 1 - i) then keccak256 (el.toBytes ++ h.toBytes)
      else keccak256 (h.toBytes ++ el.toBytes)
    checkLoop auditPath bitmap key proofHeight left proofIdx h

def checkProof (auditPath : BytesMemory) (root keyHash key : Bytes32) (bitmap : BytesMemory)
    (proofHeight : UInt16) : Except Revert Bool := do
  require (proofHeight.toNat ≤ 256) (.InvalidProofHeight proofHeight)
  pure (decide (checkLoop keccak256 auditPath bitmap key proofHeight.toNat proofHeight.toNat 0
    keyHash = root))

def verifyInclusion (proof : MerkleProof) (root : Bytes32) : Except Revert Unit := do
  require (proof.proofValue ≠ 0) .InclusionZero
  let keyHash ← computeLeafHash keccak256 proof.key proof.proofValue proof.keyHeight
  let result ← checkProof keccak256 proof.auditPath root keyHash proof.key proof.bitmap
    proof.keyHeight
  require (result = true) .ProofDoesNotMatchTrieRoot

def verifyNonInclusion (proof : MerkleProof) (root : Bytes32) : Except Revert Unit :=
  if proof.proofKey = 0 ∧ proof.proofValue = 0 then do
    let result ← checkProof keccak256 proof.auditPath root defaultLeaf proof.key proof.bitmap
      proof.keyHeight
    require (result = true) .DefaultLeafNotFoundInKeyPath
  else if proof.proofKey ≠ 0 ∧ proof.proofValue ≠ 0 then do
    let keyHash ← computeLeafHash keccak256 proof.proofKey proof.proofValue proof.keyHeight
    let result ← checkProof keccak256 proof.auditPath root keyHash proof.key proof.bitmap
      proof.keyHeight
    require (result = true) .ProvidedLeafNotFoundInKeyPath
  else .error .InvalidNonInclusionMerkleProof

end

/-- The nodes that the loop reads, from the lowest. -/
def elements (auditPath bitmap : BytesMemory) (proofHeight : ℕ) : (left proofIdx : ℕ) → List Bytes32
  | 0, _ => []
  | left + 1, proofIdx =>
    if bitSet bitmap (proofHeight - (left + 1)) then
      auditPath.mload proofIdx :: elements auditPath bitmap proofHeight left (proofIdx + 32)
    else defaultLeaf :: elements auditPath bitmap proofHeight left proofIdx

/-- The audit path of a proof, from the root down. -/
def MerkleProof.siblings (proof : MerkleProof) : List Bytes32 :=
  (elements proof.auditPath proof.bitmap proof.keyHeight.toNat proof.keyHeight.toNat 0).reverse

variable {keccak256 : Bytes → Bytes32}

/-- The way the tries of the nodes are hashed. -/
abbrev trieScheme (keccak256 : Bytes → Bytes32) := BadgerTrie.scheme keccak256

private theorem length_elements (auditPath bitmap : BytesMemory) (proofHeight left proofIdx : ℕ) :
    (elements auditPath bitmap proofHeight left proofIdx).length = left := by
  induction left generalizing proofIdx with
  | zero => rfl
  | succ left ih =>
    unfold elements
    split <;> simp [ih]

private theorem checkLoop_eq (auditPath bitmap : BytesMemory) (key : Bytes32)
    (bound : left ≤ proofHeight) (proofIdx : ℕ) (h : Bytes32) :
    checkLoop keccak256 auditPath bitmap key proofHeight left proofIdx h =
      (trieScheme keccak256).rootOf (bitIsSet key) 0
        (elements auditPath bitmap proofHeight left proofIdx).reverse h := by
  induction left generalizing proofIdx h with
  | zero => rfl
  | succ left ih =>
    have index : proofHeight - 1 - (proofHeight - (left + 1)) = left := by omega
    have step : ∀ el : Bytes32, (if bitSetBytes32 key left then keccak256 (el.toBytes ++ h.toBytes)
        else keccak256 (h.toBytes ++ el.toBytes)) =
        keccak256 ((trieScheme keccak256).stepInput (bitIsSet key left) el h) := by
      intro el
      unfold Scheme.stepInput bitSetBytes32 bitIsSet
      split <;> rfl
    simp only [checkLoop, elements, index]
    split
    · rw [step, ih (by omega), List.reverse_cons, Scheme.rootOf_snoc, List.length_reverse,
        length_elements, Nat.zero_add]
      rfl
    · rw [step, ih (by omega), List.reverse_cons, Scheme.rootOf_snoc, List.length_reverse,
        length_elements, Nat.zero_add]
      rfl

section

variable {proof : MerkleProof} {hashed : Set Bytes}

theorem checkProof_ok_iff :
    checkProof keccak256 proof.auditPath root keyHash proof.key proof.bitmap proof.keyHeight =
      .ok true ↔
    proof.keyHeight.toNat ≤ 256 ∧
      (trieScheme keccak256).rootOf (bitIsSet proof.key) 0 proof.siblings keyHash = root := by
  simp only [checkProof, ok_iff', decide_eq_true_eq]
  rw [checkLoop_eq _ _ _ (Nat.le_refl _)]
  rfl

/-- The end of the path of an inclusion proof: the leaf of its key. -/
def MerkleProof.ownLeaf (proof : MerkleProof) : Bytes :=
  BadgerTrie.leafInput proof.key proof.proofValue (256 - proof.keyHeight.toNat)

def MerkleProof.otherLeaf (proof : MerkleProof) : Bytes :=
  if proof.proofKey = 0 ∧ proof.proofValue = 0 then [0]
  else BadgerTrie.leafInput proof.proofKey proof.proofValue (256 - proof.keyHeight.toNat)

def MerkleProof.inputs (keccak256 : Bytes → Bytes32) (proof : MerkleProof) (last : Bytes) :
    Set Bytes :=
  insert last ((trieScheme keccak256).pathInputs (BadgerTrie.bitIsSet proof.key) 0 proof.siblings
    (keccak256 last))

/-- The path of the proof leads from `last` to `root`. -/
def MerkleProof.Reaches (keccak256 : Bytes → Bytes32) (proof : MerkleProof) (last : Bytes)
    (root : Bytes32) : Prop :=
  (trieScheme keccak256).rootOf (BadgerTrie.bitIsSet proof.key) 0 proof.siblings (keccak256 last) =
    root

private theorem verifyInclusion_ok_iff : verifyInclusion keccak256 proof root = .ok () ↔
    proof.proofValue ≠ 0 ∧ proof.keyHeight.toNat ≤ 256 ∧
      proof.Reaches keccak256 proof.ownLeaf root := by
  simp only [verifyInclusion, computeLeafHash, ok_iff']
  constructor
  · rintro ⟨value, _, ⟨_, rfl⟩, _, checked, rfl⟩
    exact ⟨value, checkProof_ok_iff.mp checked⟩
  · rintro ⟨value, bound, reached⟩
    exact ⟨value, _, ⟨bound, rfl⟩, true, checkProof_ok_iff.mpr ⟨bound, reached⟩, rfl⟩

private theorem verifyNonInclusion_ok (default : keccak256 [0] = defaultLeaf)
    (accepted : verifyNonInclusion keccak256 proof root = .ok ()) :
    proof.keyHeight.toNat ≤ 256 ∧ proof.Reaches keccak256 proof.otherLeaf root ∧
      (proof.proofKey = 0 ∧ proof.proofValue = 0 ∨ proof.proofKey ≠ 0 ∧ proof.proofValue ≠ 0) := by
  unfold verifyNonInclusion at accepted
  unfold MerkleProof.otherLeaf MerkleProof.Reaches
  split at accepted
  · rename_i empty
    simp only [ok_iff] at accepted
    obtain ⟨_, checked, rfl⟩ := accepted
    obtain ⟨bound, reached⟩ := checkProof_ok_iff.mp checked
    rw [if_pos empty, default]
    exact ⟨bound, reached, .inl empty⟩
  · rename_i notEmpty
    rw [if_neg notEmpty]
    split at accepted
    · rename_i leaf
      simp only [computeLeafHash, ok_iff'] at accepted
      obtain ⟨_, ⟨_, rfl⟩, _, checked, rfl⟩ := accepted
      obtain ⟨bound, reached⟩ := checkProof_ok_iff.mp checked
      exact ⟨bound, reached, .inr leaf⟩
    · cases accepted

private theorem terminal_ownLeaf : (trieScheme keccak256).Terminal proof.ownLeaf :=
  (trieScheme keccak256).terminal_leaf

private theorem terminal_otherLeaf : (trieScheme keccak256).Terminal proof.otherLeaf := by
  unfold MerkleProof.otherLeaf
  split
  · exact (trieScheme keccak256).terminal_empty
  · exact (trieScheme keccak256).terminal_leaf

theorem MerkleProof.Reaches.unique (inj : Set.InjOn keccak256 hashed) {proof' : MerkleProof}
    (sameKey : proof.key = proof'.key) (terminal : (trieScheme keccak256).Terminal last)
    (terminal' : (trieScheme keccak256).Terminal last')
    (known : proof.inputs keccak256 last ⊆ hashed) (known' : proof'.inputs keccak256 last' ⊆ hashed)
    (reaches : proof.Reaches keccak256 last root) (reaches' : proof'.Reaches keccak256 last' root) :
    last = last' := by
  unfold MerkleProof.inputs MerkleProof.Reaches at *
  rw [sameKey] at known reaches
  obtain ⟨final, path⟩ := Set.insert_subset_iff.mp known
  obtain ⟨final', path'⟩ := Set.insert_subset_iff.mp known'
  have binding : Set.InjOn (trieScheme keccak256).hash hashed := inj
  exact (Scheme.rootOf_binding binding terminal terminal' final final' path path'
    (reaches.trans reaches'.symm)).2

theorem MerkleProof.Reaches.lookup (inj : Set.InjOn keccak256 hashed) (run : Run keccak256 s)
    (root : s.root = some word) (log : ∀ input ∈ s.db.hashed, input ∈ hashed)
    (terminal : (trieScheme keccak256).Terminal last) (known : proof.inputs keccak256 last ⊆ hashed)
    (reaches : proof.Reaches keccak256 last word) :
    (last = [0] ∧ s.Get proof.key = .ok none) ∨ ∃ key value height,
      last = leafInput key value height ∧
      s.Get proof.key = .ok (if key = proof.key then some value else none) := by
  have binding : Set.InjOn (trieScheme keccak256).hash hashed := inj
  obtain ⟨t, backed⟩ := run.backed inj log
  have digest : (trieScheme keccak256).digest TrieHeight t = word := by
    have nonempty : t ≠ .empty := by
      rintro rfl
      rw [backed.root] at root
      cases root
    rw [backed.root, ref_word nonempty] at root
    exact Option.some.inj root
  obtain ⟨siblings, final, ends, _, path, pathKnown, finalKnown, found⟩ :=
    (trieScheme keccak256).exists_path bitIsSet backed.represents.fits 0 proof.key
  have inside := backed.represents.inputs
  obtain ⟨lastKnown, pathKnown'⟩ := Set.insert_subset_iff.mp known
  have finalTerminal : (trieScheme keccak256).Terminal
      ((trieScheme keccak256).input (TrieHeight - siblings.length) final) := by
    cases final with
    | empty => exact (trieScheme keccak256).terminal_empty
    | leaf key value => exact (trieScheme keccak256).terminal_leaf
    | node _ _ => exact absurd trivial ends
  have same : last = (trieScheme keccak256).input (TrieHeight - siblings.length) final :=
    (Scheme.rootOf_binding binding terminal finalTerminal lastKnown (inside finalKnown) pathKnown'
      (pathKnown.trans inside) (reaches.trans (digest.symm.trans path))).2
  rw [backed.get inj, found]
  cases final with
  | empty => exact .inl ⟨same, rfl⟩
  | leaf key value => exact .inr ⟨key, value, _, same, rfl⟩
  | node _ _ => exact absurd trivial ends

def MerkleProof.ShowsOther (proof : MerkleProof) : Prop :=
  proof.proofKey = 0 ∨ proof.proofKey ≠ proof.key

private theorem otherLeaf_empty (empty : proof.proofKey = 0 ∧ proof.proofValue = 0) :
    proof.otherLeaf = [0] :=
  if_pos empty

private theorem otherLeaf_leaf (leaf : proof.proofKey ≠ 0 ∧ proof.proofValue ≠ 0) :
    proof.otherLeaf = leafInput proof.proofKey proof.proofValue (256 - proof.keyHeight.toNat) :=
  if_neg fun empty => leaf.1 empty.1

private theorem ownLeaf_of_not_showsOther (own : ¬ proof.ShowsOther) :
    proof.otherLeaf = proof.ownLeaf := by
  obtain ⟨nonzero, same⟩ := not_or.mp own
  unfold MerkleProof.otherLeaf MerkleProof.ownLeaf
  rw [if_neg fun empty => nonzero empty.1, not_not.mp same]

/-- An accepted non-inclusion proof excludes inclusion proofs, and shows a key that a trie with this
root lacks, exactly if it does not provide the leaf of its own key. -/
theorem verifyNonInclusion_sound (default : keccak256 [0] = defaultLeaf)
    (collisionFree : Set.InjOn keccak256 hashed)
    (known : proof.inputs keccak256 proof.otherLeaf ⊆ hashed)
    (accepted : verifyNonInclusion keccak256 proof root = .ok ()) :
    ((∀ inclusion : MerkleProof, inclusion.key = proof.key →
      inclusion.inputs keccak256 inclusion.ownLeaf ⊆ hashed →
      verifyInclusion keccak256 inclusion root ≠ .ok ()) ↔ proof.ShowsOther) ∧
    ∀ s, BadgerTrie.Run keccak256 s → s.root = some root → (∀ input ∈ s.db.hashed, input ∈ hashed) →
      (s.Get proof.key = .ok none ↔ proof.ShowsOther) := by
  obtain ⟨bound, reaches, kind⟩ := verifyNonInclusion_ok default accepted
  refine ⟨⟨fun excluded => ?_, fun shows inclusion sameKey inclusionKnown included => ?_⟩,
    fun s run rooted log => ?_⟩
  · by_contra own
    have same := ownLeaf_of_not_showsOther own
    have value : proof.proofValue ≠ 0 := by
      rcases kind with empty | leaf
      · exact absurd (.inl empty.1) own
      · exact leaf.2
    refine excluded proof rfl (same ▸ known) (verifyInclusion_ok_iff.mpr ⟨value, bound, ?_⟩)
    rw [← same]
    exact reaches
  · obtain ⟨_, _, reached⟩ := verifyInclusion_ok_iff.mp included
    have same := reached.unique collisionFree sameKey terminal_ownLeaf terminal_otherLeaf
      inclusionKnown known reaches
    rcases kind with empty | leaf
    · rw [otherLeaf_empty empty] at same
      exact (trieScheme keccak256).leaf_ne_empty same
    · rw [otherLeaf_leaf leaf] at same
      obtain ⟨keys, _⟩ := (trieScheme keccak256).leaf_injective same
      rcases shows with zero | other
      · exact leaf.1 zero
      · exact other (keys.symm.trans sameKey)
  · rcases kind with empty | leaf
    · rcases reaches.lookup collisionFree run rooted log terminal_otherLeaf known with
        ⟨_, found⟩ | ⟨key, value, height, same, _⟩
      · exact ⟨fun _ => .inl empty.1, fun _ => found⟩
      · rw [otherLeaf_empty empty] at same
        exact absurd same.symm (trieScheme keccak256).leaf_ne_empty
    · rcases reaches.lookup collisionFree run rooted log terminal_otherLeaf known with
        ⟨same, _⟩ | ⟨key, value, height, same, found⟩
      · rw [otherLeaf_leaf leaf] at same
        exact absurd same (trieScheme keccak256).leaf_ne_empty
      · rw [otherLeaf_leaf leaf] at same
        obtain ⟨rfl, rfl⟩ := (trieScheme keccak256).leaf_injective same
        rw [found]
        by_cases own : proof.proofKey = proof.key
        · constructor
          · intro missing
            simp [own] at missing
          · rintro (zero | other)
            · exact absurd zero leaf.1
            · exact absurd own other
        · simp [MerkleProof.ShowsOther, own]

end

def sampleKeccak (input : Bytes) : Bytes32 :=
  if input = [0] then defaultLeaf else BadgerTrie.sampleHash input

/-! Two leaves under one node. The key 9 could stand in the place of the first. -/

def sampleLeaf (key : Bytes32) : Bytes :=
  BadgerTrie.leafInput key 5 255

def sampleSibling : Bytes32 :=
  sampleKeccak (sampleLeaf (BadgerTrie.sampleKey 16))

def samplePair (key : Bytes32) : Bytes :=
  BadgerTrie.nodeInput (sampleKeccak (sampleLeaf key)) sampleSibling

def sampleInputs : List Bytes :=
  [sampleLeaf 7, sampleLeaf 9, sampleLeaf (BadgerTrie.sampleKey 16), samplePair 7, samplePair 9]

def sampleBeside : MerkleProof :=
  ⟨1, 9, 7, 5, ⟨[0x80], fun _ => 0⟩, ⟨sampleSibling.toBytes, fun _ => 0⟩⟩

private theorem sampleBeside_inputs (leaf : last ∈ sampleInputs)
    (node : BadgerTrie.nodeInput (sampleKeccak last) sampleSibling ∈ sampleInputs) :
    sampleBeside.inputs sampleKeccak last ⊆ { input | input ∈ sampleInputs } := by
  have siblings : sampleBeside.siblings = [sampleSibling] := by decide +kernel
  have left : BadgerTrie.bitIsSet sampleBeside.key 0 = false := by decide +kernel
  rw [MerkleProof.inputs, siblings, Scheme.pathInputs, Scheme.stepInput, left]
  exact Set.insert_subset_iff.mpr ⟨leaf, Set.insert_subset_iff.mpr ⟨node, Set.empty_subset _⟩⟩

theorem verifyNonInclusion_sound_sample :
    verifyNonInclusion sampleKeccak sampleBeside (sampleKeccak (samplePair 7)) = .ok () ∧
    sampleBeside.inputs sampleKeccak sampleBeside.ownLeaf ⊆ { input | input ∈ sampleInputs } ∧
    ∀ inclusion : MerkleProof, inclusion.key = 9 →
      inclusion.inputs sampleKeccak inclusion.ownLeaf ⊆ { input | input ∈ sampleInputs } →
      verifyInclusion sampleKeccak inclusion (sampleKeccak (samplePair 7)) ≠ .ok () := by
  have accepted : verifyNonInclusion sampleKeccak sampleBeside (sampleKeccak (samplePair 7)) =
      .ok () := by
    decide +kernel
  have free : ∀ a ∈ sampleInputs, ∀ b ∈ sampleInputs, sampleKeccak a = sampleKeccak b →
    a = b := by decide +kernel
  have known : sampleBeside.inputs sampleKeccak sampleBeside.otherLeaf ⊆
      { input | input ∈ sampleInputs } :=
    sampleBeside_inputs (by decide +kernel) (by decide +kernel)
  have other : sampleBeside.ShowsOther := .inr (by decide +kernel)
  refine ⟨accepted, sampleBeside_inputs (by decide +kernel) (by decide +kernel), ?_⟩
  exact (verifyNonInclusion_sound rfl (fun a first b second => free a first b second) known
    accepted).1.mpr other

def sampleTrie : Except BadgerTrie.Error BadgerTrie.SMT :=
  BadgerTrie.SMT.Update sampleKeccak BadgerTrie.SMT.new [⟨7, 5⟩]

def sampleRoot : Bytes32 :=
  sampleKeccak (BadgerTrie.leafInput 7 5 256)

def empty : BytesMemory := ⟨[], fun _ => 0⟩

def sampleProof (key : Bytes32) : MerkleProof :=
  ⟨0, key, 7, 5, empty, empty⟩

private theorem sampleTrie_root :
    (sampleTrie >>= fun s => pure s.root) = .ok (some sampleRoot) := by
  decide +kernel

private theorem sampleTrie_get : (sampleTrie >>= fun s => s.Get 7) = .ok (some 5) := by
  decide +kernel

private theorem sampleTrie_free :
    (sampleTrie >>= fun s => pure (decide (CollisionFree sampleKeccak s))) = .ok true := by
  decide +kernel

/-- A key that the trie holds, with an inclusion proof and with a non-inclusion proof that shows its
own leaf. -/
theorem verifyNonInclusion_accepts_present : ∃ s, sampleTrie = .ok s ∧
    Set.InjOn sampleKeccak { input | input ∈ s.db.hashed } ∧ sampleKeccak [0] = defaultLeaf ∧
    s.root = some sampleRoot ∧ s.Get 7 = .ok (some 5) ∧
    verifyInclusion sampleKeccak (sampleProof 7) sampleRoot = .ok () ∧
    verifyNonInclusion sampleKeccak (sampleProof 7) sampleRoot = .ok () := by
  obtain ⟨s, run, rooted⟩ := bind_ok_iff.mp sampleTrie_root
  obtain ⟨_, again, found⟩ := bind_ok_iff.mp sampleTrie_get
  obtain rfl := Except.ok.inj (run.symm.trans again)
  obtain ⟨_, again, free⟩ := bind_ok_iff.mp sampleTrie_free
  obtain rfl := Except.ok.inj (run.symm.trans again)
  exact ⟨s, run, BadgerTrie.CollisionFree.injOn (of_decide_eq_true (pure_ok_iff.mp free)), rfl,
    pure_ok_iff.mp rooted, found, by decide +kernel, by decide +kernel⟩

end AliceNet.Bridge.MerkleProofLibrary

