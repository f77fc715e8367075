import AliceNet.Consensus.Handlers
import AliceNet.Consensus.Quorum

/-! Which messages `PreValidate` drops as stale. -/

namespace AliceNet.Consensus

open Outcome

/-- The computation does not stop with `ErrStale`. -/
def Fresh {α : Type} (result : Except Fault α) : Prop := ∀ text, result ≠ .error (.stale text)

namespace Fresh

variable {α β : Type}

theorem ok (value : α) : Fresh (.ok value : Except Fault α) := by
  intro text
  simp

theorem bind (left : Fresh first) (right : ∀ value, Fresh (next value)) :
    Fresh (first >>= next) := by
  intro text stopped
  cases first with
  | error fault => exact left text (by simpa [Bind.bind, Except.bind] using stopped)
  | ok value => exact right value text stopped

theorem require [Decidable condition] :
    Fresh (Outcome.require condition (.invalid text) : Except Fault Unit) := by
  intro other
  unfold Outcome.require
  split <;> simp

theorem found (entry : Option β) : Fresh (Database.found entry fun _ => pure ()) := by
  intro text
  cases entry <;> simp [Database.found, throw, throwThe, MonadExceptOf.throw, pure, Except.pure,
    Bind.bind, Except.bind]

end Fresh

/-- The kinds of messages that belong to one round -/
def Message.ofRound : Message → Bool
  | .rCert _ => false
  | .nextHeight _ => false
  | _ => true

namespace Database

variable {τ : Type} {crypto : Crypto} {db : Database τ}

theorem getValidatorSet_fresh : Fresh (db.getValidatorSet height) := .found _

theorem validateRCERT_fresh : Fresh (db.validateRCERT groupKey bHeight rHeight rNumber) := by
  unfold validateRCERT
  split
  · exact .ok ()
  · exact .bind getValidatorSet_fresh fun _ => .require

theorem proposalValidation_fresh :
    Fresh (db.proposalValidation groupKey proposer bHeight rHeight rNumber) := by
  refine .bind validateRCERT_fresh fun _ => .bind getValidatorSet_fresh fun _ =>
    .bind .require fun _ => ?_
  split
  · exact .ok ()
  · exact .require

theorem certifiedVote_fresh :
    Fresh (db.certifiedVote groupKey proposer bHeight rHeight rNumber) := by
  refine .bind validateRCERT_fresh fun _ => ?_
  cases proposer with
  | some p => exact proposalValidation_fresh
  | none => exact .ok ()

private theorem voteValidation_fresh :
    Fresh (db.voteValidation groupKey voter proposer coSigners bHeight rHeight rNumber) :=
  .bind certifiedVote_fresh fun _ => .bind getValidatorSet_fresh fun _ => .bind .require fun _ =>
    .require

private theorem voteNextValidation_fresh :
    Fresh (db.voteNextValidation groupKey groupShare voter proposer coSigners bHeight rHeight
      rNumber) :=
  .bind certifiedVote_fresh fun _ => .bind getValidatorSet_fresh fun _ => .bind .require fun _ =>
    .require

private theorem notStale_eq (name : String) (own vote : HR) :
    (notStale name true own vote = .ok () ∧ own.height ≤ vote.height ∧ own.round ≤ vote.round) ∨
      (∃ text, notStale name true own vote = .error (.stale text)) ∧
        (vote.height < own.height ∨ vote.round < own.round) := by
  by_cases height : own.height ≤ vote.height
  · by_cases round : own.round ≤ vote.round
    · refine Or.inl ⟨?_, height, round⟩
      rw [notStale, require_of height]
      exact require_of (fun _ => round) _
    · refine Or.inr ⟨?_, Or.inr (not_le.mp round)⟩
      rw [notStale, require_of height]
      exact ⟨_, if_neg (by simpa using round)⟩
  · refine Or.inr ⟨?_, Or.inl (not_le.mp height)⟩
    rw [notStale, require, if_neg height]
    exact ⟨_, rfl⟩

private theorem stale_iff_of_fresh (fresh : Fresh (rest ())) :
    (∃ text, (notStale name true own vote >>= rest) = .error (.stale text)) ↔
      vote.height < own.height ∨ vote.round < own.round := by
  rcases notStale_eq name own vote with ⟨passed, height, round⟩ | ⟨⟨text, stopped⟩, older⟩
  · rw [passed]
    constructor
    · rintro ⟨text, stopped⟩
      exact (fresh text stopped).elim
    · omega
  · rw [stopped]
    exact ⟨fun _ => older, fun _ => ⟨text, rfl⟩⟩

private theorem checkVote_stale_iff (kind : v.ofRound = true)
    (signed : v.validateSignatures crypto = .ok origin) :
    (∃ text, db.checkVote crypto own v = .error (.stale text)) ↔
      v.hr.height < own.height ∨ v.hr.round < own.round := by
  have validated : Fresh (v.validateSignatures crypto) := by
    rw [signed]
    exact .ok origin
  cases v with
  | rCert v | nextHeight v => cases kind
  | proposal v =>
    exact stale_iff_of_fresh (.bind validated fun _ => .bind proposalValidation_fresh fun _ =>
      .ok _)
  | preVote v | preVoteNil v | preCommit v | preCommitNil v =>
    exact stale_iff_of_fresh (.bind validated fun _ => .bind voteValidation_fresh fun _ => .ok _)
  | nextRound v =>
    exact stale_iff_of_fresh (.bind validated fun _ => .bind voteNextValidation_fresh fun _ =>
      .ok _)

/-- `PreValidate` follows the order of heights and rounds exactly for the messages that are not of a
later height and a smaller round. -/
theorem preValidate_order_iff (ownState : OwnState) (rs : RoundState) {v : Message}
    {origin : Origin} (own : db.getOwnState = .ok ownState)
    (round : db.getCurrentRoundState ownState.vAddr = .ok rs)
    (chain : rs.rCert.rClaims.chainID = v.extractRCert.rClaims.chainID) (kind : v.ofRound = true)
    (signed : v.validateSignatures crypto = .ok origin) :
    ((∃ text, db.preValidate crypto (.vote v) = .error (.stale text)) ↔
      v.hr.height < rs.hr.height ∨ v.hr.height = rs.hr.height ∧ v.hr.round < rs.hr.round) ↔
    (v.hr.height ≤ rs.hr.height ∨ rs.hr.round ≤ v.hr.round) := by
  have checked : db.preValidate crypto (.vote v) = db.checkVote crypto rs.hr v := by
    rw [preValidate, own]
    show (db.getCurrentRoundState ownState.vAddr >>= _) = _
    rw [round]
    show (require _ _ >>= _) = _
    rw [require_of chain]
    rfl
  rw [checked, checkVote_stale_iff kind signed]
  omega

end Database

def sampleCrypto : Crypto where
  recover _ signature := .ok signature
  bnValidate _ _ := .ok 0
  secpSign _ := .ok 1
  bnSign share _ := .ok share
  aggregate _ _ _ := .ok 0
  hashBClaims b := b.txRoot
  hashAddress a := a
  makeTxRoot _ := .ok 0

def sampleNil (height round : ℕ) : Message := .preVoteNil ⟨sampleRCert height round, 2⟩

theorem Database.preValidate_order_current :
    (∃ text, (sampleDatabase 1 [1, 2, 3, 4] (sampleRCert 3 2)).preValidate sampleCrypto
      (.vote (sampleNil 3 1)) =
      .error (.stale text)) ↔ (sampleNil 3 1).hr.height < 3 ∨ (sampleNil 3 1).hr.height = 3 ∧
        (sampleNil 3 1).hr.round < 2 :=
  (preValidate_order_iff ⟨1, 0, sampleHeader, sampleHeader, sampleHeader, sampleHeader⟩
    (RoundState.initial 0 (sampleRCert 3 2)) rfl rfl rfl rfl rfl).mpr (Or.inl (by decide))

/-- The node is in the second round of a height, and a vote for the first round of the next height
is stale to it. -/
theorem Database.preValidate_next_height_stale : (sampleNil 4 1).validateSignatures sampleCrypto =
      .ok ⟨some 2, none, 0, 0, []⟩ ∧
    (sampleDatabase 1 [1, 2, 3, 4] (sampleRCert 3 2)).preValidate sampleCrypto
      (.vote (sampleNil 4 1)) =
      .error (.stale "PreVoteNil r<r-1: OwnR:2 ObjR:1") :=
  ⟨rfl, rfl⟩

end AliceNet.Consensus
