import AliceNet.Consensus.Store

/-!
The number of votes that a node waits for, against the number that the validator set calls for.
-/

namespace AliceNet.Consensus

open Outcome

private theorem calcThreshold_lt (some : 1 ≤ n) : calcThreshold n < n := by
  simp only [calcThreshold]
  split <;> omega

private theorem calcThreshold_succ {n : ℕ} :
    calcThreshold (n + 1) = calcThreshold n ↔ n % 3 = 0 := by
  simp only [calcThreshold]
  split <;> split <;> omega

private theorem calcThreshold_overlap (some : 1 ≤ n) :
    (n - 1) / 3 + n < 2 * (calcThreshold n + 1) := by
  simp only [calcThreshold]
  split <;> omega

private theorem quorums_share {voters first second : Finset Address} (some : 1 ≤ voters.card)
    (left : first ⊆ voters) (right : second ⊆ voters)
    (enough : first.card = calcThreshold voters.card + 1)
    (enough' : second.card = calcThreshold voters.card + 1) :
    (voters.card - 1) / 3 < (first ∩ second).card := by
  have together := Finset.card_union_add_card_inter first second
  have inside := Finset.card_le_card (Finset.union_subset left right)
  have overlap := calcThreshold_overlap some
  omega

namespace Database

variable {τ : Type} {db : Database τ} {rcert : RCert} {r : RoundStates}

private theorem loadState_ok (ran : db.loadState rcert = .ok r) :
    db.getValidatorSet rcert.rClaims.height = .ok r.validatorSet ∧ db.getOwnState =
      .ok r.ownState := by
  simp only [loadState, ok_iff] at ran
  obtain ⟨validatorSet, set, ownState, own, _, _, _, _, _, _, rfl⟩ := ran
  exact ⟨set, own⟩

end Database

namespace RoundStates

theorem members_length {r : RoundStates} (distinct : r.validatorSet.addresses.Nodup) :
    r.members.length = r.validatorSet.addresses.length +
      if r.ownState.vAddr ∈ r.validatorSet.addresses then 0 else 1 := by
  rw [members]
  split
  · rename_i mem
    rw [List.dedup_cons_of_mem mem, distinct.dedup, Nat.add_zero]
  · rename_i stranger
    rw [List.dedup_cons_of_notMem stranger, distinct.dedup, List.length_cons]

/-- The quorum of the round states is the one of the validators. -/
structure QuorumOf (r : RoundStates) (validators : List Address) : Prop where
  threshold : r.getCurrentThreshold = calcThreshold validators.length + 1
  reachable : r.getCurrentThreshold ≤ validators.length
  overlap : ∀ first second : Finset Address, first ⊆ validators.toFinset →
    second ⊆ validators.toFinset →
    first.card = r.getCurrentThreshold → second.card = r.getCurrentThreshold →
    (validators.length - 1) / 3 < (first ∩ second).card

theorem quorumOf_of_threshold {r : RoundStates} (distinct : validators.Nodup)
    (some : 1 ≤ validators.length)
    (threshold : r.getCurrentThreshold = calcThreshold validators.length + 1) :
    r.QuorumOf validators := by
  have card := List.toFinset_card_of_nodup distinct
  refine ⟨threshold, ?_, ?_⟩
  · rw [threshold]
    exact calcThreshold_lt some
  · intro first second left right enough enough'
    rw [threshold, ← card] at enough enough'
    have shared := quorums_share (by rwa [card]) left right enough enough'
    rwa [card] at shared

end RoundStates

/-- The round states that a node loads have the quorum of the validator set exactly if the node is a
validator or the size of the set is a multiple of three: the node itself is counted among the peers.
-/
theorem Database.loadState_quorum {τ : Type} (db : Database τ) (rcert : RCert)
    (validatorSet : ValidatorSet) (ownState : OwnState) (r : RoundStates)
    (set : db.getValidatorSet rcert.rClaims.height = .ok validatorSet)
    (own : db.getOwnState = .ok ownState) (loaded : db.loadState rcert = .ok r)
    (distinct : validatorSet.addresses.Nodup) (some : 1 ≤ validatorSet.addresses.length) :
    r.QuorumOf validatorSet.addresses ↔
      ownState.vAddr ∈ validatorSet.addresses ∨ validatorSet.addresses.length % 3 = 0 := by
  obtain ⟨sameSet, sameOwn⟩ := loadState_ok loaded
  obtain rfl := Except.ok.inj (set.symm.trans sameSet)
  obtain rfl := Except.ok.inj (own.symm.trans sameOwn)
  have threshold : r.getCurrentThreshold = calcThreshold r.members.length + 1 := rfl
  rw [RoundStates.members_length distinct] at threshold
  by_cases mem : r.ownState.vAddr ∈ r.validatorSet.addresses
  · rw [if_pos mem, Nat.add_zero] at threshold
    exact ⟨fun _ => Or.inl mem, fun _ => RoundStates.quorumOf_of_threshold distinct some threshold⟩
  · rw [if_neg mem] at threshold
    constructor
    · intro quorum
      rw [quorum.threshold, Nat.add_right_cancel_iff] at threshold
      exact Or.inr (calcThreshold_succ.mp threshold.symm)
    · intro condition
      have multiple := condition.resolve_left mem
      rw [calcThreshold_succ.mpr multiple] at threshold
      exact RoundStates.quorumOf_of_threshold distinct some threshold

def sampleHeader : BlockHeader := ⟨⟨1, 1, 0, 0, 0, 0, 0⟩, 0, []⟩

def sampleDatabase (own : Address) (validators : List Address) (rCert : RCert) : Database Unit where
  ownState := some ⟨own, 0, sampleHeader, sampleHeader, sampleHeader, sampleHeader⟩
  ownValidatingState := some ⟨0, 0, 0, none, none⟩
  currentRoundState _ := some (RoundState.initial 0 rCert)
  validatorSet _ := some ⟨validators.map fun vAddr => ⟨vAddr, vAddr⟩, 0, 1⟩
  validatorSetPostApplication _ := none
  committedBlockHeader _ := none
  snapshotBlockHeader _ := none
  headerTrieRoot _ := none
  currentHeaderRoot := none
  safeToProceed _ := true
  txCache _ _ := none
  broadcast := []

def sampleRCert (height round : ℕ) : RCert := ⟨0, ⟨1, height, round, 0⟩⟩

theorem Database.loadState_quorum_member :
    ∃ r, (sampleDatabase 1 [1, 2, 3, 4] (sampleRCert 3 1)).loadState
      (sampleRCert 3 1) = .ok r ∧ r.QuorumOf [1, 2, 3, 4] :=
  ⟨_, rfl, (loadState_quorum (sampleDatabase 1 [1, 2, 3, 4] (sampleRCert 3 1)) (sampleRCert 3 1)
    ⟨[1, 2, 3, 4].map fun vAddr => ⟨vAddr, vAddr⟩, 0, 1⟩ ⟨1, 0, sampleHeader, sampleHeader,
      sampleHeader, sampleHeader⟩
    _ rfl rfl rfl (by decide) (by decide)).mpr (Or.inl (by decide))⟩

/-- A node that only follows four validators waits for all of them. -/
theorem Database.loadState_quorum_stranger :
    ∃ r, (sampleDatabase 9 [1, 2, 3, 4] (sampleRCert 3 1)).loadState
      (sampleRCert 3 1) = .ok r ∧ r.getCurrentThreshold = 4 ∧ calcThreshold 4 + 1 = 3 ∧
        ¬ r.QuorumOf [1, 2, 3, 4] := by
  refine ⟨_, rfl, rfl, rfl, ?_⟩
  intro quorum
  exact absurd quorum.threshold (by decide)

end AliceNet.Consensus
