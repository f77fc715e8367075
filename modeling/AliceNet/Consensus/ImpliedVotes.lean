import AliceNet.Library.Keyed
import AliceNet.Consensus.VoteRecords

/-! A precommit brings other votes with it, which are filed before it is. -/

namespace AliceNet.Consensus

open Stateful Outcome List Function

namespace RoundState

variable {crypto : Crypto} {b b' : RoundState} {v : Message}

/-- The setter answers with nothing worse than `ErrStale`. -/
def tolerates (crypto : Crypto) (b : RoundState) (v : Message) : Bool :=
  match set crypto v b with
  | .ok _ _ => true
  | .error e _ => e.isStale

theorem of_ends (post : RoundState → Bool → Prop)
    (ends : Ends (set crypto v) b (fun _ b' => post b' true) fun e b' => post b' e.isStale) :
    post (after crypto b v) (tolerates crypto b v) := by
  unfold after tolerates
  cases outcome : set crypto v b with
  | ok _ _ => exact ends.of_ok outcome
  | error _ _ => exact ends.of_error outcome

theorem set_cases (crypto : Crypto) (b : RoundState) (v : Message) :
    Ends (set crypto v) b (fun _ b' => b' = after crypto b v ∧ tolerates crypto b v = true)
      (fun e b' => b' = after crypto b v ∧ tolerates crypto b v = e.isStale) := by
  unfold Ends after tolerates
  cases set crypto v b with
  | ok _ _ => exact ⟨rfl, rfl⟩
  | error _ _ => exact ⟨rfl, rfl⟩

/-! ### What a record holds against a vote -/

/-- The votes of a record that carry a block. -/
def blockVotes (b : RoundState) : List (Option Message) :=
  [b.proposal.map .proposal, b.preVote.map .preVote, b.preCommit.map .preCommit,
    b.nextHeight.map .nextHeight]

def blocks (b : RoundState) : List BClaims :=
  b.blockVotes.filterMap fun held => held.bind Message.extractBClaims

/-- Its certificate, and the votes that carry no block. -/
def otherVotes (b : RoundState) : List (Option Message) :=
  [some (.rCert b.rCert), b.preVoteNil.map .preVoteNil, b.preCommitNil.map .preCommitNil,
    b.nextRound.map .nextRound]

def parents (b : RoundState) : List Hash :=
  b.otherVotes.filterMap fun held => held.map fun w => w.extractRCert.rClaims.prevBlock

structure Agrees (crypto : Crypto) (p : Proposal) (b : RoundState) : Prop where
  blocks : ∀ x ∈ b.blocks, bClaimsEqual crypto p.pClaims.bClaims x = .ok true
  parents : ∀ hash ∈ b.parents, hash = p.rCert.rClaims.prevBlock

/-- The blocks of the votes have been decoded. -/
def Legible (b : RoundState) : Prop := ∀ x ∈ b.blocks, x.unmarshalCapn = .ok ()

def Bars (b : RoundState) (v : Message) : Prop :=
  b.implicitPVN = true ∨ b.implicitPCN = true ∨ b.conflictingRCert ≠ none ∨
    match v with
    | .proposal _ => b.conflictingProposal ≠ none
    | .preVote _ => b.preVoteNil ≠ none ∨ b.conflictingPreVote ≠ none
    | _ => False

instance Bars.decidable (b : RoundState) (v : Message) : Decidable (b.Bars v) := by
  unfold Bars
  cases v <;> infer_instance

inductive Backs (p : Proposal) : Message → Prop
  | proposal : Backs p (.proposal p)
  | preVote (signature : Signature) : Backs p (.preVote ⟨p, signature⟩)
  | preCommit (signature : Signature) (preVotes : List Signature) :
    Backs p (.preCommit ⟨p, signature, preVotes⟩)

/-- Those that are filed before it. -/
inductive Brings (p : Proposal) : Message → Prop
  | proposal : Brings p (.proposal p)
  | preVote (signature : Signature) : Brings p (.preVote ⟨p, signature⟩)

variable {p : Proposal}

theorem Backs.extractBClaims (backs : Backs p v) : v.extractBClaims = some p.pClaims.bClaims := by
  cases backs <;> rfl

theorem Backs.extractRCert (backs : Backs p v) : v.extractRCert = p.rCert := by
  cases backs <;> rfl

theorem Brings.backs (brings : Brings p v) : Backs p v := by
  cases brings <;> constructor

theorem Backs.hr (backs : Backs p v) : v.hr = p.rCert.hr := congrArg RCert.hr backs.extractRCert

theorem blockHash_of_decoded {x : BClaims} (decoded : x.unmarshalCapn = .ok ()) :
    x.blockHash crypto = .ok (crypto.hashBClaims x) := by
  simp only [BClaims.unmarshalCapn, ok_iff] at decoded
  obtain ⟨_, height, chainID⟩ := decoded
  rw [BClaims.blockHash, require_of (Nat.one_le_iff_ne_zero.mp chainID),
    require_of (Nat.one_le_iff_ne_zero.mp height)]
  rfl

theorem block_decoded (decoded : p.unmarshalCapn = .ok ()) :
    p.pClaims.bClaims.unmarshalCapn = .ok () := by
  simp only [Proposal.unmarshalCapn, PClaims.unmarshalCapn, ok_iff] at decoded
  obtain ⟨_, ⟨_, _, _, block, _⟩, _⟩ := decoded
  exact block

private theorem bClaimsEqual_self (decoded : p.unmarshalCapn = .ok ()) :
    bClaimsEqual crypto p.pClaims.bClaims p.pClaims.bClaims = .ok true := by
  simp only [bClaimsEqual, blockHash_of_decoded (block_decoded decoded), ok_iff]
  exact ⟨_, rfl, _, rfl, beq_self_eq_true _⟩

private theorem blockConflict_cases (decoded : p.unmarshalCapn = .ok ()) (backs : Backs p v)
    {held : Option Message}
    (legible : ∀ x, held.bind Message.extractBClaims = some x → x.unmarshalCapn = .ok ()) :
    ∃ conflict, blockConflict crypto v held = .ok conflict ∧ (conflict = false ↔
      ∀ x, held.bind Message.extractBClaims = some x →
        bClaimsEqual crypto p.pClaims.bClaims x = .ok true) := by
  rw [blockConflict, backs.extractBClaims]
  cases block : held.bind Message.extractBClaims with
  | none => exact ⟨false, rfl, by simp⟩
  | some x =>
    have equal : bClaimsEqual crypto p.pClaims.bClaims x =
        .ok (crypto.hashBClaims p.pClaims.bClaims == crypto.hashBClaims x) := by
      rw [bClaimsEqual, blockHash_of_decoded (block_decoded decoded),
        blockHash_of_decoded (legible x block)]
      rfl
    refine ⟨!(crypto.hashBClaims p.pClaims.bClaims == crypto.hashBClaims x), ?_, ?_⟩
    · simp only [equal]
      rfl
    · simp [equal]

private theorem prevConflict_iff (backs : Backs p v) {held : Option Message} :
    prevConflict v held = false ↔
      ∀ w, held = some w → w.extractRCert.rClaims.prevBlock = p.rCert.rClaims.prevBlock := by
  cases held with
  | none => exact ⟨nofun, fun _ => rfl⟩
  | some w =>
    rw [prevConflict, bne_eq_false_iff_eq, backs.extractRCert, eq_comm]
    exact ⟨fun same _ held => Option.some.inj held ▸ same, fun same => same w rfl⟩

private theorem agrees_of_votes : b.Agrees crypto p ↔
    (∀ held ∈ b.blockVotes, ∀ x, held.bind Message.extractBClaims = some x →
      bClaimsEqual crypto p.pClaims.bClaims x = .ok true) ∧
    ∀ held ∈ b.otherVotes, ∀ w, held = some w →
      w.extractRCert.rClaims.prevBlock = p.rCert.rClaims.prevBlock := by
  constructor
  · rintro ⟨blocks, parents⟩
    refine ⟨fun held listed x block => blocks x (mem_filterMap.mpr ⟨held, listed, block⟩), ?_⟩
    rintro _ listed w rfl
    exact parents _ (mem_filterMap.mpr ⟨some w, listed, rfl⟩)
  · rintro ⟨blocks, parents⟩
    refine ⟨fun x mem => ?_, fun hash mem => ?_⟩
    · obtain ⟨held, listed, block⟩ := mem_filterMap.mp mem
      exact blocks held listed x block
    · obtain ⟨held, listed, follows⟩ := mem_filterMap.mp mem
      obtain ⟨w, rfl, rfl⟩ := Option.map_eq_some_iff.mp follows
      exact parents _ listed w rfl

private theorem conflicts_cases (crypto : Crypto) (decoded : p.unmarshalCapn = .ok ())
    (backs : Backs p v) (legible : b.Legible) :
    ∃ conflict, conflicts crypto b v = .ok conflict ∧ (conflict = false ↔ b.Agrees crypto p) := by
  have compared : ∀ held ∈ b.blockVotes, _ := fun held listed =>
    @blockConflict_cases crypto v p decoded backs held fun x block =>
      legible x (mem_filterMap.mpr ⟨held, listed, block⟩)
  simp only [blockVotes, forall_mem_cons, not_mem_nil, false_imp_iff, implies_true,
    and_true] at compared
  obtain ⟨⟨_, onProposal, proposal⟩, ⟨_, onPreVote, preVote⟩, ⟨_, onPreCommit, preCommit⟩,
    ⟨_, onNextHeight, nextHeight⟩⟩ := compared
  have first : (b.rCert.rClaims.prevBlock != p.rCert.rClaims.prevBlock) =
      prevConflict v (some (.rCert b.rCert)) := by
    rw [prevConflict, backs.extractRCert]
    exact bne_comm
  have chain : ∀ c₁ c₂ c₃ c₄ c₅ c₆ c₇ c₈ : Bool, (do
      if c₁ then return true
      if ← Except.ok c₂ then return true
      if ← Except.ok c₃ then return true
      if c₄ then return true
      if ← Except.ok c₅ then return true
      if c₆ then return true
      if c₇ then return true
      Except.ok c₈ : Except Fault Bool) = .ok (c₁ || c₂ || c₃ || c₄ || c₅ || c₆ || c₇ || c₈) := by
    decide
  rw [conflicts, backs.extractRCert, first, onProposal, onPreVote, onPreCommit, onNextHeight]
  refine ⟨_, chain .., ?_⟩
  rw [agrees_of_votes]
  simp only [Bool.or_eq_false_iff, proposal, preVote, preCommit, nextHeight, prevConflict_iff backs,
    blockVotes, otherVotes, forall_mem_cons, not_mem_nil, false_imp_iff, implies_true, and_true]
  tauto

theorem mem_blocks_of_refused (refused : Refused b b') (mem : x ∈ b'.blocks) : x ∈ b.blocks := by
  obtain ⟨held, listed, block⟩ := mem_filterMap.mp mem
  refine mem_filterMap.mpr ⟨held, ?_, block⟩
  simp only [blockVotes, refused.proposal, refused.preVote, refused.preCommit, mem_cons] at listed ⊢
  rcases refused.nextHeight with same | dropped
  · rwa [same] at listed
  · rw [dropped, Option.map_none] at listed
    rcases listed with rfl | rfl | rfl | rfl | none
    · simp
    · simp
    · simp
    · cases block
    · cases none

theorem Legible.refused (legible : b.Legible) (refused : Refused b b') : b'.Legible :=
  fun x mem => legible x (mem_blocks_of_refused refused mem)

/-! ### The setters -/

section

variable (decoded : p.unmarshalCapn = .ok ()) (backs : Backs p v)

include decoded backs

theorem Backs.set_ends (ends : Ends (genericSet crypto v) b
    (fun ok b' => if ok = false ∧ isDeadBlockRound p.rCert.hr = true
      then ∀ text, fail (.invalid text) b' else post ok b') fail) :
    Ends (set crypto v) b post fail := by
  simp only [Proposal.unmarshalCapn, ok_iff] at decoded
  obtain ⟨-, -, empty⟩ := decoded
  have unbarred : ¬(isDeadBlockRound p.rCert.hr = true ∧ (p.txHshLst != []) = true) := by
    rintro ⟨dead, some⟩
    simp [empty (beq_iff_eq.mp dead)] at some
  have passes : ∀ barText corruptText,
      Ends (setVote crypto (p.txHshLst != []) barText corruptText v) b post fail := by
    intro barText corruptText
    simp only [setVote, ends_bind, ends_ite, ends_throw, ends_pure, backs.hr, Bool.and_eq_true,
      Bool.not_eq_true']
    refine ⟨fun barred => absurd barred unbarred, fun _ => ?_⟩
    refine ends.mono (fun ok b' outcome => ?_) fun _ _ failed => failed
    split at outcome
    · next corrupt => exact ⟨fun _ => outcome corruptText, fun sound => absurd corrupt sound⟩
    · next sound => exact ⟨fun corrupt => absurd corrupt sound, fun _ => outcome⟩
  cases backs with
  | proposal => exact passes _ _
  | preVote _ => exact passes _ _
  | preCommit _ _ => exact passes _ _

theorem Backs.behind (later : p.rCert.hr < b.hr) :
    after crypto b v = b ∧ tolerates crypto b v = true := by
  refine of_ends (fun b' stale => b' = b ∧ stale = true) (backs.set_ends decoded ?_)
  rw [← backs.hr] at later
  simp only [genericSet, ends_bind, ends_get]
  cases heights : relateH b.hr v.hr with
  | gt => simp [Fault.isStale]
  | lt => exact absurd (HR.height_le later.le) (not_le.mpr (relateH_lt.mp heights))
  | eq =>
    cases rounds : relateHR b.hr v.hr with
    | lt => exact absurd (relateHR_lt.mp rounds) later.asymm
    | eq => exact absurd (relateHR_eq.mp rounds) later.ne'
    | gt => cases backs <;> simp [staleAgainst, throw, throwThe, MonadExceptOf.throw, Fault.isStale]

theorem Backs.ahead (crypto : Crypto) (earlier : b.hr < p.rCert.hr) :
    after crypto b v = b.setReset v ∧ tolerates crypto b v = true := by
  refine of_ends (fun b' stale => b' = b.setReset v ∧ stale = true)
    (backs.set_ends decoded ?_)
  rw [← backs.hr] at earlier
  simp only [genericSet, ends_bind, ends_get]
  cases heights : relateH b.hr v.hr with
  | lt => simp
  | gt =>
    have higher : v.hr.height < b.hr.height := Nat.compare_eq_gt.mp heights
    exact absurd (HR.height_le earlier.le) (not_le.mpr higher)
  | eq => simp [relateHR_lt.mpr earlier]

variable (round : p.rCert.hr = b.hr) (legible : b.Legible)

include round legible

theorem Backs.round_ends :
    Ends (set crypto v) b
      (fun ok b' => checkSameTypeConflict (b.resetNHForDBR v) v = .ok () ∧
        if ok then (b.resetNHForDBR v).Agrees crypto p ∧ b' = (b.resetNHForDBR v).setType v ∧
          checkTypeStale (b.resetNHForDBR v) v = .ok ()
        else ¬(b.resetNHForDBR v).Agrees crypto p ∧ isDeadBlockRound p.rCert.hr = false ∧
          b' = (b.resetNHForDBR v).setTypeConflict v true)
      (fun e b' => checkSameTypeConflict (b.resetNHForDBR v) v = .error e ∨
        checkSameTypeConflict (b.resetNHForDBR v) v = .ok () ∧
          (¬(b.resetNHForDBR v).Agrees crypto p ∧ isDeadBlockRound p.rCert.hr = true ∧
            e.isStale = false ∨
          (b.resetNHForDBR v).Agrees crypto p ∧ b' = b.resetNHForDBR v ∧
            checkTypeStale (b.resetNHForDBR v) v = .error e)) := by
  have heights : relateH b.hr v.hr = .eq := by rw [backs.hr, round, relateH_eq]
  have rounds : relateHR b.hr v.hr = .eq := by rw [backs.hr, round, relateHR_eq]
  obtain ⟨conflict, compared, agrees⟩ :=
    conflicts_cases crypto decoded backs (legible.refused (resetNHForDBR_refused b v))
  refine backs.set_ends decoded ?_
  simp only [genericSet, ends_bind, ends_get, heights, rounds, checkAndSet, checkStaleAndConflict,
    checkConflict, if_true, ends_modify, ends_lift, compared]
  generalize b.resetNHForDBR v = c at *
  cases fit : checkSameTypeConflict c v with
  | error e => exact ⟨nofun, fun _ same => .inl same⟩
  | ok =>
    refine ⟨fun _ _ => ⟨?_, nofun⟩, nofun⟩
    rintro _ ⟨⟩
    cases conflict with
    | true =>
      have against : ¬c.Agrees crypto p := fun free => absurd (agrees.mpr free) nofun
      cases dead : isDeadBlockRound p.rCert.hr <;> simp [against, Fault.isStale]
    | false =>
      have free := agrees.mp rfl
      cases stale : checkTypeStale c v <;> simp [free, stale]

end

/-! ### The votes for one record, in turn -/

section

variable (brings : Brings p v)

include brings

theorem Brings.fit_iff : checkSameTypeConflict b v = .ok () ↔ ¬b.Bars v := by
  cases brings <;> simp [checkSameTypeConflict, Bars, ok_iff, not_or, and_assoc]

theorem Brings.unfit (unfit : checkSameTypeConflict b v = .error e) : e.isStale = false := by
  cases brings <;> simp only [checkSameTypeConflict, require, bind, Except.bind] at unfit <;>
    grind [Fault.isStale]

theorem Brings.bars_setType (w : Message) : (b.setType v).Bars w ↔ b.Bars w := by
  cases brings <;> exact Iff.rfl

end

theorem bars_resetNHForDBR (b : RoundState) (w v : Message) :
    (b.resetNHForDBR w).Bars v ↔ b.Bars v := by
  unfold resetNHForDBR
  split <;> exact Iff.rfl

theorem Backs.isStale (backs : Backs p v) (stale : checkTypeStale b v = .error e) :
    e.isStale = true := by
  cases backs with
  | _ =>
    obtain ⟨-, rfl⟩ := require_error_iff.mp stale
    rfl

theorem Backs.resetNHForDBR (backs : Backs p v) (b : RoundState) :
    b.resetNHForDBR v = b.resetNHForDBR (.proposal p) := by
  simp only [RoundState.resetNHForDBR, backs.hr]
  rfl

section

variable (decoded : p.unmarshalCapn = .ok ()) (round : p.rCert.hr = b.hr) (legible : b.Legible)

include decoded round legible

theorem Brings.round_cases (crypto : Crypto) (brings : Brings p v) :
    let held := b.resetNHForDBR (.proposal p)
    b.Bars v ∧ tolerates crypto b v = false ∨
      ¬b.Bars v ∧ held.Agrees crypto p ∧ tolerates crypto b v = true ∧
        (after crypto b v = held ∨ after crypto b v = held.setType v) ∨
      ¬b.Bars v ∧ ¬held.Agrees crypto p ∧
        (tolerates crypto b v = true ↔ isDeadBlockRound p.rCert.hr = false) ∧
        (tolerates crypto b v = true → after crypto b v = held.setTypeConflict v true) := by
  have backs := brings.backs
  rw [← backs.resetNHForDBR, ← bars_resetNHForDBR b v v, ← brings.fit_iff]
  refine of_ends (fun b' fine => _ ∧ fine = false ∨ _ ∧ _ ∧ fine = true ∧ (b' = _ ∨ b' = _) ∨
    _ ∧ _ ∧ (fine = true ↔ _) ∧ (fine = true → b' = _))
    ((backs.round_ends decoded round legible).mono ?_ ?_)
  · rintro ok b' ⟨fit, outcome⟩
    cases ok with
    | true =>
      obtain ⟨agrees, filed, -⟩ := outcome
      exact .inr (.inl ⟨fit, agrees, rfl, .inr filed⟩)
    | false =>
      obtain ⟨against, alive, rfl⟩ := outcome
      exact .inr (.inr ⟨fit, against, iff_of_true rfl alive, fun _ => rfl⟩)
  · rintro e b' (unfit | ⟨fit, ⟨against, dead, worse⟩ | ⟨agrees, same, stale⟩⟩)
    · refine .inl ⟨by_contra fun free => ?_, brings.unfit unfit⟩
      rw [brings.fit_iff.mpr free] at unfit
      cases unfit
    · refine .inr (.inr ⟨fit, against, ?_, ?_⟩)
      · simp [worse, dead]
      · simp [worse]
    · exact .inr (.inl ⟨fit, agrees, backs.isStale stale, .inl same⟩)

end

theorem mem_blocks_iff : x ∈ b.blocks ↔
    (b.proposal.map .proposal).bind Message.extractBClaims = some x ∨
      (b.preVote.map .preVote).bind Message.extractBClaims = some x ∨
      (b.preCommit.map .preCommit).bind Message.extractBClaims = some x ∨
      (b.nextHeight.map .nextHeight).bind Message.extractBClaims = some x := by
  simp only [blocks, blockVotes, mem_filterMap, mem_cons, not_mem_nil, or_false, exists_eq_or_imp,
    exists_eq_left]

theorem Backs.mem_blocks_setType (backs : Backs p v) (mem : x ∈ (b.setType v).blocks) :
    x = p.pClaims.bClaims ∨ x ∈ b.blocks := by
  rw [mem_blocks_iff] at mem ⊢
  cases backs <;> simp_all [setType, Message.extractBClaims, eq_comm] <;> tauto

private theorem resetNHForDBR_twice (b : RoundState) (v : Message) :
    (b.resetNHForDBR v).resetNHForDBR v = b.resetNHForDBR v := by
  unfold RoundState.resetNHForDBR
  split <;> simp [*]

/-- A record of the round of a proposal that agrees with it. -/
structure Ready (crypto : Crypto) (p : Proposal) (b : RoundState) : Prop where
  round : p.rCert.hr = b.hr
  legible : b.Legible
  agrees : (b.resetNHForDBR (.proposal p)).Agrees crypto p

theorem Ready.resetNHForDBR (ready : Ready crypto p b) :
    Ready crypto p (b.resetNHForDBR (.proposal p)) where
  round := ready.round.trans (resetNHForDBR_refused b _).hr.symm
  legible := ready.legible.refused (resetNHForDBR_refused b _)
  agrees := by
    rw [resetNHForDBR_twice]
    exact ready.agrees

theorem Ready.setType (ready : Ready crypto p b) (decoded : p.unmarshalCapn = .ok ())
    (backs : Backs p v) : Ready crypto p (b.setType v) where
  round := by
    cases backs <;> exact ready.round
  legible x mem := by
    rcases backs.mem_blocks_setType mem with rfl | held
    · exact block_decoded decoded
    · exact ready.legible x held
  agrees := by
    have same : (b.setType v).resetNHForDBR (.proposal p) =
        (b.resetNHForDBR (.proposal p)).setType v := by
      unfold RoundState.resetNHForDBR
      cases backs <;> split <;> rfl
    have parents : ((b.resetNHForDBR (.proposal p)).setType v).parents =
        (b.resetNHForDBR (.proposal p)).parents := by
      cases backs <;> rfl
    rw [same]
    refine ⟨fun x mem => ?_, fun hash mem => ready.agrees.parents hash (parents ▸ mem)⟩
    rcases backs.mem_blocks_setType mem with rfl | held
    · exact bClaimsEqual_self decoded
    · exact ready.agrees.blocks x held

theorem Ready.along_iff (ready : Ready crypto p b) (decoded : p.unmarshalCapn = .ok ())
    (kinds : ∀ v ∈ votes, Brings p v) :
    Keyed.Along (after crypto) (fun b v => tolerates crypto b v = true) b votes ↔
      ∀ v ∈ votes, ¬b.Bars v := by
  induction votes generalizing b with
  | nil => simp [Keyed.Along]
  | cons v rest ih =>
    obtain ⟨brings, kinds⟩ := forall_mem_cons.mp kinds
    rw [Keyed.Along, forall_mem_cons]
    have next : ∀ b', Ready crypto p b' → (∀ w, b'.Bars w ↔ b.Bars w) → after crypto b v = b' →
        (Keyed.Along (after crypto) (fun b v => tolerates crypto b v = true) (after crypto b v)
          rest ↔ ∀ w ∈ rest, ¬b.Bars w) := by
      rintro _ ready same rfl
      simpa only [same] using ih ready kinds
    rcases brings.round_cases decoded ready.round ready.legible crypto with
      ⟨barred, worse⟩ | ⟨free, _, fine, held | filed⟩ | ⟨_, against, _⟩
    · simp [barred, worse]
    · rw [next _ ready.resetNHForDBR (bars_resetNHForDBR b _) held]
      simp [free, fine]
    · rw [next _ (ready.resetNHForDBR.setType decoded brings.backs)
        (fun w => (brings.bars_setType w).trans (bars_resetNHForDBR b _ w)) filed]
      simp [free, fine]
    · exact absurd ready.agrees against

private theorem round_along_iff (round : p.rCert.hr = b.hr) (legible : b.Legible)
    (decoded : p.unmarshalCapn = .ok ())
    (kinds : ∀ v ∈ votes, Brings p v) :
    Keyed.Along (after crypto) (fun b v => tolerates crypto b v = true) b votes ↔
      (∀ v ∈ votes, ¬b.Bars v) ∧
        (2 ≤ votes.length ∨ votes ≠ [] ∧ isDeadBlockRound p.rCert.hr = true →
          (b.resetNHForDBR (.proposal p)).Agrees crypto p) := by
  by_cases agrees : (b.resetNHForDBR (.proposal p)).Agrees crypto p
  · rw [Ready.along_iff ⟨round, legible, agrees⟩ decoded kinds]
    simp [agrees]
  · cases votes with
    | nil => simp [Keyed.Along]
    | cons v rest =>
      obtain ⟨brings, -⟩ := forall_mem_cons.mp kinds
      rcases brings.round_cases decoded round legible crypto with
        ⟨barred, worse⟩ | ⟨_, other, _⟩ | ⟨free, _, alive, marked⟩
      · simp [Keyed.Along, barred, worse]
      · exact absurd other agrees
      · cases rest with
        | nil => simp [Keyed.Along, free, alive, agrees]
        | cons w more =>
          obtain ⟨brings', -⟩ := forall_mem_cons.mp (forall_mem_cons.mp kinds).2
          refine iff_of_false ?_ fun both => agrees (both.2 (.inl (by simp)))
          rintro ⟨fine, second, -⟩
          rw [marked fine] at second
          have refused :=
            (resetNHForDBR_refused b (.proposal p)).trans (setTypeConflict_refused v true)
          rcases brings'.round_cases decoded (round.trans refused.hr.symm) (legible.refused refused)
            crypto with ⟨_, worse⟩ | ⟨free, _⟩ | ⟨free, _⟩
          · exact absurd (worse.symm.trans second) Bool.false_ne_true
          · exact free (.inl rfl)
          · exact free (.inl rfl)

/-- It has nothing against any vote for the proposal, and no precommit yet. -/
structure Open (crypto : Crypto) (p : Proposal) (b : RoundState) :
  Prop extends Ready crypto p b where
  fit : ∀ v, Backs p v → checkSameTypeConflict b v = .ok ()
  vacant : b.preCommit = none

private theorem open_initial {groupKey : GroupKey} {rCert : RCert} (round : p.rCert.hr = rCert.hr)
    (prevBlock : rCert.rClaims.prevBlock = p.rCert.rClaims.prevBlock) :
    Open crypto p (initial groupKey rCert) where
  round := round
  legible _ mem := nomatch mem
  agrees := by
    unfold RoundState.resetNHForDBR
    split <;> refine ⟨nofun, fun hash mem => ?_⟩ <;>
      simpa [parents, otherVotes, initial, Message.extractRCert, prevBlock] using mem
  fit _ backs := by
    cases backs <;> rfl
  vacant := rfl

theorem Open.resetNHForDBR (clear : Open crypto p b) :
    Open crypto p (b.resetNHForDBR (.proposal p)) where
  toReady := clear.toReady.resetNHForDBR
  fit v backs := by
    rw [← clear.fit v backs]
    unfold RoundState.resetNHForDBR
    cases backs <;> split <;> rfl
  vacant := (resetNHForDBR_refused b _).preCommit.trans clear.vacant

theorem Open.setType (clear : Open crypto p b) (decoded : p.unmarshalCapn = .ok ())
    (brings : Brings p v) : Open crypto p (b.setType v) where
  toReady := clear.toReady.setType decoded brings.backs
  fit w other := by
    rw [← clear.fit w other]
    cases brings <;> cases other <;> rfl
  vacant := by
    cases brings <;> exact clear.vacant

theorem Open.after (clear : Open crypto p b) (decoded : p.unmarshalCapn = .ok ())
    (brings : Brings p v) :
    tolerates crypto b v = true ∧ Open crypto p (after crypto b v) := by
  rcases brings.round_cases decoded clear.round clear.legible crypto with
    ⟨barred, _⟩ | ⟨_, _, fine, held | filed⟩ | ⟨_, against, _⟩
  · exact absurd barred (brings.fit_iff.mp (clear.fit v brings.backs))
  · exact ⟨fine, held ▸ clear.resetNHForDBR⟩
  · exact ⟨fine, filed ▸ clear.resetNHForDBR.setType decoded brings⟩
  · exact absurd clear.agrees against

/-- After a reset only the `NextHeight` may speak against the proposal. -/
theorem Brings.renewed (crypto : Crypto) (decoded : p.unmarshalCapn = .ok ()) (brings : Brings p v)
    (legible : b.Legible) :
    let kept := isDeadBlockRound p.rCert.hr = false ∧ ¬b.hr.height < p.rCert.hr.height
    p.rCert.hr = (b.setReset v).hr ∧ (b.setReset v).Legible ∧ (∀ w, ¬(b.setReset v).Bars w) ∧
      (((b.setReset v).resetNHForDBR (.proposal p)).Agrees crypto p ↔
        ∀ nh, b.nextHeight = some nh → kept →
          bClaimsEqual crypto p.pClaims.bClaims nh.nhClaims.proposal.pClaims.bClaims =
              .ok true) := by
  intro kept
  have backs := brings.backs
  obtain ⟨c, same, noted⟩ : ∃ c : RoundState, b.setReset v = (c.reset p.rCert).setType v ∧
      ∀ nh, c.nextHeight = some nh ↔ b.nextHeight = some nh ∧ kept := by
    refine ⟨_, by rw [← backs.extractRCert]; rfl, fun nh => ?_⟩
    have test : b.dropsNextHeight v = (isDeadBlockRound v.hr || relateH b.hr v.hr == .lt) := by
      cases backs <;> rfl
    have drops : b.dropsNextHeight v = true ↔ ¬kept := by
      rw [test, backs.hr, Bool.or_eq_true, beq_iff_eq, relateH_lt, not_and_or, not_not,
        Bool.not_eq_false]
    split
    · next dropped => simp [drops.mp dropped]
    · next stays => simp [not_not.mp (mt drops.mpr stays)]
  have listed : ∀ x ∈ (c.reset p.rCert).blocks, ∃ nh, b.nextHeight = some nh ∧ kept ∧
      nh.nhClaims.proposal.pClaims.bClaims = x := by
    intro x mem
    simp only [mem_blocks_iff, reset, initial, Option.map_none, Option.bind_none, reduceCtorEq,
      false_or] at mem
    cases held : c.nextHeight with
    | none => simp [held] at mem
    | some nh =>
      rw [held] at mem
      obtain ⟨held, alive⟩ := (noted nh).mp held
      exact ⟨nh, held, alive, Option.some.inj mem⟩
  have legible' : (c.reset p.rCert).Legible := by
    intro x mem
    obtain ⟨nh, held, _, rfl⟩ := listed x mem
    exact legible _ (mem_blocks_iff.mpr (.inr (.inr (.inr (by rw [held]; rfl)))))
  refine ⟨backs.hr.symm.trans (setReset_hr b v).symm, fun x mem => ?_, fun w => ?_, ?_⟩
  · rw [same] at mem
    rcases backs.mem_blocks_setType mem with rfl | held
    · exact block_decoded decoded
    · exact legible' x held
  · rw [same, brings.bars_setType]
    cases w <;> simp [Bars, reset, initial]
  · rw [same]
    constructor
    · intro agrees nh held alive
      have whole : ∀ d : RoundState, d.resetNHForDBR (.proposal p) = d :=
        fun d => if_neg (Bool.not_eq_true _ ▸ alive.1)
      rw [whole] at agrees
      refine agrees.blocks _ (mem_blocks_iff.mpr (.inr (.inr (.inr ?_))))
      have still : ((c.reset p.rCert).setType v).nextHeight = c.nextHeight := by
        cases backs <;> rfl
      rw [still, (noted nh).mpr ⟨held, alive⟩]
      rfl
    · intro equal
      refine (Ready.setType ⟨rfl, legible', fun x mem => ?_, fun hash mem =>
        ?_⟩ decoded backs).agrees
      · obtain ⟨nh, held, alive, rfl⟩ :=
          listed x (mem_blocks_of_refused (resetNHForDBR_refused _ _) mem)
        exact equal nh held alive
      · have same : ((c.reset p.rCert).resetNHForDBR (.proposal p)).parents =
            (c.reset p.rCert).parents := by
          unfold RoundState.resetNHForDBR
          split <;> rfl
        rw [same] at mem
        simpa [parents, otherVotes, reset, initial, Message.extractRCert] using mem

/-- What a record may hold for it to take the votes for a proposal, by the round that it is in. -/
structure Takes (crypto : Crypto) (p : Proposal) (b : RoundState) (votes : List Message) :
  Prop where
  unbarred : b.hr = p.rCert.hr → ∀ v ∈ votes, ¬b.Bars v
  agrees : b.hr = p.rCert.hr → 2 ≤ votes.length ∨ votes ≠ [] ∧ isDeadBlockRound p.rCert.hr = true →
    (b.resetNHForDBR (.proposal p)).Agrees crypto p
  nextHeight : b.hr < p.rCert.hr → 3 ≤ votes.length → ∀ nh, b.nextHeight = some nh →
    isDeadBlockRound p.rCert.hr = false ∧ ¬b.hr.height < p.rCert.hr.height →
      bClaimsEqual crypto p.pClaims.bClaims nh.nhClaims.proposal.pClaims.bClaims = .ok true

private theorem along_iff_takes (decoded : p.unmarshalCapn = .ok ()) (legible : b.Legible)
    (kinds : ∀ v ∈ votes, Brings p v) :
    Keyed.Along (after crypto) (fun b v => tolerates crypto b v = true) b votes ↔
      b.Takes crypto p votes := by
  rcases lt_trichotomy b.hr p.rCert.hr with earlier | round | later
  · have takes : b.Takes crypto p votes ↔ (3 ≤ votes.length → _) :=
      ⟨fun takes => takes.nextHeight earlier,
        fun kept => ⟨fun round => absurd round earlier.ne, fun round => absurd round earlier.ne,
          fun _ => kept⟩⟩
    rw [takes]
    cases votes with
    | nil => simp [Keyed.Along]
    | cons v rest =>
      obtain ⟨brings, kinds⟩ := forall_mem_cons.mp kinds
      obtain ⟨reset, fine⟩ := brings.backs.ahead decoded crypto earlier
      obtain ⟨round, legible, unbarred, agrees⟩ := brings.renewed crypto decoded legible
      rw [Keyed.Along, reset, and_iff_right fine, round_along_iff round legible decoded kinds,
        and_iff_right fun w _ => unbarred w, agrees, length_cons]
      constructor
      · exact fun several three => several (.inl (by omega))
      · rintro three (two | ⟨_, dead⟩) nh held kept
        · exact three (by omega) nh held kept
        · rw [dead] at kept
          exact absurd kept.1.symm Bool.false_ne_true
  · rw [round_along_iff round.symm legible decoded kinds]
    constructor
    · rintro ⟨unbarred, agrees⟩
      exact ⟨fun _ => unbarred, fun _ => agrees, fun earlier => absurd round earlier.ne⟩
    · exact fun takes => ⟨takes.unbarred round, takes.agrees round⟩
  · refine iff_of_true ?_ ⟨fun round => absurd round later.ne', fun round => absurd round later.ne',
      fun earlier => absurd later earlier.asymm⟩
    refine (Keyed.Along.of_invariant (fun b => p.rCert.hr < b.hr) _ later kinds ?_).1
    intro b v later brings
    obtain ⟨same, fine⟩ := brings.backs.behind decoded later
    exact ⟨fine, by rwa [same]⟩

end RoundState

namespace RoundStates

open RoundState Keyed

variable {crypto : Crypto} {r : RoundStates}

def withPeers (r : RoundStates) (table : Address → RoundState) : RoundStates :=
    { r with peerStateMap := table }

theorem known_ends (mem : a ∈ r.members) : Ends (known (some a) text) r post fail ↔ post a r := by
  simp [known, mem]

/-- The votes and the records they are for. -/
abbrev Filings := List (Address × Message)

abbrev Tolerated (crypto : Crypto) (table : Address → RoundState) (work : Filings) : Prop :=
  Along (stepAt (after crypto)) (fun table task => tolerates crypto (table task.1) task.2 = true)
    table work

def implied (votes : List (Address × PreVote)) : Filings := votes.map fun vote =>
    (vote.1, .preVote vote.2)

private theorem setImplPreVotes_ends (members : ∀ vote ∈ votes, vote.1 ∈ r.members) :
    Ends (setImplPreVotes crypto votes) r
      (fun fine r' => r'.members = r.members ∧
        (fine = true ↔ Tolerated crypto r.peerStateMap (implied votes)) ∧
        (fine = true →
          r' = r.withPeers ((implied votes).foldl (stepAt (after crypto)) r.peerStateMap)))
      (fun _ _ => False) := by
  induction votes generalizing r with
  | nil => simp [setImplPreVotes, implied, Along, withPeers]
  | cons vote rest ih =>
    obtain ⟨a, pv⟩ := vote
    obtain ⟨mem, members⟩ := forall_mem_cons.mp members
    have next : ∀ b', b' = after crypto (r.peerStateMap a) (.preVote pv) →
        Ends (setImplPreVotes crypto rest) (putPeer a b' r)
          (fun fine r' => r'.members = r.members ∧
            (fine = true ↔ Tolerated crypto (stepAt (after crypto) r.peerStateMap (a, .preVote pv))
              (implied rest)) ∧
            (fine = true →
              r' = r.withPeers ((implied ((a, pv) :: rest)).foldl (stepAt (after crypto))
              r.peerStateMap)))
          (fun _ _ => False) := by
      rintro b' rfl
      exact ih members
    simp only [setImplPreVotes, ends_bind, known_ends mem, ends_tryCatch, ends_discard, ends_pure,
      ends_ite, onPeer, ends_focus]
    refine (set_cases crypto (r.peerStateMap a) (.preVote pv)).mono ?_ ?_
    · rintro _ b' ⟨same, fits⟩
      refine ⟨fun _ => (next b' same).mono ?_ fun _ _ impossible => impossible, fun impossible =>
        absurd trivial impossible⟩
      rintro fine r' ⟨kept, iff, reached⟩
      exact ⟨kept, iff.trans ⟨fun rest => ⟨fits, rest⟩, And.right⟩, reached⟩
    · rintro e b' ⟨same, fits⟩
      refine ⟨fun stale => (next b' same).mono ?_ fun _ _ impossible => impossible, fun worse => ?_⟩
      · rintro fine r' ⟨kept, iff, reached⟩
        exact ⟨kept, iff.trans ⟨fun rest => ⟨fits.trans stale, rest⟩, And.right⟩, reached⟩
      · have unready {p : Prop} (ready : false = true) : p := absurd ready Bool.false_ne_true
        exact ⟨rfl, ⟨unready, fun along => absurd (fits.symm.trans along.1) worse⟩, unready⟩

private theorem setInnerProposal_ends :
    Ends (setInnerProposal crypto proposer p) r
      (fun _ r' => ∃ a ∈ r.members, proposer = some a ∧
        tolerates crypto (r.peerStateMap a) (.proposal p) = true ∧
        r' = r.withPeers (stepAt (after crypto) r.peerStateMap (a, .proposal p)))
      (fun _ r' =>
        (∀ a ∈ r.members, proposer = some a → tolerates crypto (r.peerStateMap a) (.proposal p) =
        false) ∧
        ∀ a, (r'.peerStateMap a).preCommit = (r.peerStateMap a).preCommit) := by
  cases proposer with
  | none => simp [setInnerProposal, setProposal, known, Fault.isStale]
  | some a =>
    by_cases mem : a ∈ r.members
    · simp only [setInnerProposal, setProposal, ends_tryCatch, ends_bind, known_ends mem,
        ends_discard, onPeer,
        ends_focus, ends_ite, ends_pure, ends_throw]
      have refused : Ends (RoundState.set crypto (.proposal p)) (r.peerStateMap a) _ _ :=
        set_files (by simp)
      refine ((set_cases crypto (r.peerStateMap a) (.proposal p)).and refused).mono ?_ ?_
      · rintro _ b' ⟨⟨rfl, fits⟩, -⟩
        exact ⟨a, mem, rfl, fits, rfl⟩
      · rintro e b' ⟨⟨rfl, fits⟩, refused⟩
        refine ⟨fun stale => ⟨a, mem, rfl, fits.trans stale, rfl⟩, fun worse =>
          ⟨?_, fun other => ?_⟩⟩
        · rintro _ - ⟨⟩
          rw [fits]
          exact Bool.not_eq_true _ ▸ worse
        · by_cases same : other = a
          · subst same
            simp only [putPeer, update_self]
            exact refused.preCommit
          · simp only [putPeer, update_of_ne same]
    · simp only [setInnerProposal, setProposal, known, ends_tryCatch, ends_bind, ends_get, mem,
        if_false, ends_throw, ends_ite, Fault.isStale, Bool.false_eq_true, false_implies,
        not_false_eq_true, true_implies, true_and, implies_true, and_true]
      exact fun other holds same => absurd (Option.some.inj same ▸ holds) mem

def filings (proposer : Address) (origin : Origin) (pc : PreCommit) : Filings :=
  (proposer, .proposal pc.proposal) :: implied (makeImplPreVotes origin pc)

theorem mem_filings (mem : task ∈ filings proposer origin pc) :
    (task.1 = proposer ∨ task.1 ∈ origin.signers) ∧ Brings pc.proposal task.2 := by
  rcases mem_cons.mp mem with rfl | later
  · exact ⟨.inl rfl, .proposal⟩
  · simp only [implied, makeImplPreVotes, map_map, mem_map, comp_apply] at later
    obtain ⟨⟨signature, signer⟩, zipped, rfl⟩ := later
    exact ⟨.inr (of_mem_zip zipped).2, .preVote signature⟩

/-- The round states after `SetPreCommit`, whatever it returned. -/
def afterPreCommit (crypto : Crypto) (origin : Origin) (pc : PreCommit) (r : RoundStates) :
    RoundStates :=
  match setPreCommit crypto origin pc r with
  | .ok _ r' => r'
  | .error _ r' => r'

/-- The precommit is recorded, and nothing speaks against its voter. -/
structure Recorded (r : RoundStates) (voter : Address) (pc : PreCommit) : Prop where
  preCommit : (r.peerStateMap voter).preCommit = some pc
  implicitPVN : (r.peerStateMap voter).implicitPVN = false
  implicitPCN : (r.peerStateMap voter).implicitPCN = false

section Voter

variable {voter proposer : Address} {groupKey : GroupKey} {rCert : RCert} {pc : PreCommit}
  {origin : Origin}

section

variable (empty : r.peerStateMap voter = RoundState.initial groupKey rCert)
  (round : pc.proposal.rCert.hr = rCert.hr)
  (prevBlock : pc.proposal.rCert.rClaims.prevBlock = rCert.rClaims.prevBlock)
  (decoded : (Message.preCommit pc).unmarshalCapn = .ok ())

include empty round prevBlock decoded

theorem voter_open (crypto : Crypto) (proposer : Address) (origin : Origin) :
    Along (after crypto) (fun b v => tolerates crypto b v = true) (r.peerStateMap voter)
        (addressed voter (filings proposer origin pc)) ∧
      Open crypto pc.proposal
        ((addressed voter (filings proposer origin pc)).foldl (after crypto)
          (r.peerStateMap voter)) := by
  refine Along.of_invariant _ (fun v => Brings pc.proposal v) ?_ ?_ ?_
  · rw [empty]
    exact open_initial round prevBlock.symm
  · intro v mem
    exact (mem_filings (mem_addressed.mp mem)).2
  · intro b v clear brings
    exact clear.after decoded brings

private theorem tolerated_iff (signers : ∀ a ∈ origin.signers, a ∈ r.members)
    (mem : proposer ∈ r.members) (legible : ∀ a ∈ r.members, (r.peerStateMap a).Legible) :
    Tolerated crypto r.peerStateMap (filings proposer origin pc) ↔
      ∀ a ∈ r.members, a ≠ voter → (r.peerStateMap a).Takes crypto pc.proposal
        (addressed a (filings proposer origin pc)) := by
  rw [Tolerated, along_iff (after crypto) fun b v => tolerates crypto b v = true]
  have takes : ∀ a ∈ r.members, _ := fun a inside =>
    @along_iff_takes crypto (r.peerStateMap a) pc.proposal
      (addressed a (filings proposer origin pc))
      decoded (legible a inside) fun v listed => (mem_filings (mem_addressed.mp listed)).2
  refine ⟨fun each a inside _ => (takes a inside).mp (each a), fun each a => ?_⟩
  by_cases same : a = voter
  · subst same
    exact (voter_open empty round prevBlock decoded crypto proposer origin).1
  · by_cases inside : a ∈ r.members
    · exact (takes a inside).mpr (each a inside same)
    · have nothing : addressed a (filings proposer origin pc) = [] := by
        refine eq_nil_iff_forall_not_mem.mpr fun v present => inside ?_
        rcases (mem_filings (mem_addressed.mp present)).1 with rfl | signer
        · exact mem
        · exact signers a signer
      rw [nothing]
      trivial

end

private theorem filePreCommit_ends (mem : voter ∈ r.members) (voted : origin.voter = some voter)
    (signers : ∀ a ∈ origin.signers, a ∈ r.members)
    (decoded : (Message.preCommit pc).unmarshalCapn = .ok ())
    (clear : Open crypto pc.proposal ((addressed voter (implied (makeImplPreVotes origin pc))).foldl
    (after crypto)
      (r.peerStateMap voter))) :
    Ends (do
        let fine ← setImplPreVotes crypto (makeImplPreVotes origin pc)
        let a ← known origin.voter "rs nil in pc"
        if fine then discard (onPeer a (RoundState.setPreCommit crypto pc))
        else onPeer a (modify fun rs => { rs with implicitPCN := true })) r
      (fun _ r' => Recorded r' voter pc ↔
        Tolerated crypto r.peerStateMap (implied (makeImplPreVotes origin pc)))
      (fun _ _ => False) := by
  have voters : ∀ vote ∈ makeImplPreVotes origin pc, vote.1 ∈ r.members := by
    intro vote present
    simp only [makeImplPreVotes, mem_map] at present
    obtain ⟨⟨signature, signer⟩, zipped, rfl⟩ := present
    exact signers signer (of_mem_zip zipped).2
  simp only [ends_bind]
  refine (setImplPreVotes_ends voters).mono ?_ fun _ _ impossible => impossible
  rintro fine r' ⟨kept, iff, reached⟩
  rw [voted, known_ends (kept.symm ▸ mem), ends_ite, ends_discard]
  simp only [onPeer, ends_focus]
  constructor
  · intro fine
    obtain rfl := reached fine
    have record := foldl_stepAt (after crypto) r.peerStateMap (implied (makeImplPreVotes origin pc))
      voter
    rw [← record] at clear
    have backs : Backs pc.proposal (.preCommit pc) := .preCommit pc.signature pc.preVotes
    have held := clear.resetNHForDBR
    rw [← backs.resetNHForDBR] at held
    have first : Brings pc.proposal (.proposal pc.proposal) := .proposal
    have marks := first.fit_iff.mp (held.fit _ first.backs)
    refine (backs.round_ends decoded clear.round clear.legible).mono ?_ ?_
    · rintro ok b' ⟨-, outcome⟩
      cases ok with
      | true =>
        obtain ⟨-, rfl, -⟩ := outcome
        refine ⟨fun _ => iff.mp fine, fun _ => ⟨?_, ?_, ?_⟩⟩ <;> simp only [putPeer, update_self]
        · rfl
        · exact Bool.not_eq_true _ ▸ fun mark => marks (.inl mark)
        · exact Bool.not_eq_true _ ▸ fun mark => marks (.inr (.inl mark))
      | false => exact absurd (backs.resetNHForDBR _ ▸ clear.agrees) outcome.1
    · rintro e b' (unfit | ⟨-, ⟨against, -⟩ | ⟨-, -, stale⟩⟩)
      · rw [held.fit _ backs] at unfit
        cases unfit
      · exact absurd (backs.resetNHForDBR _ ▸ clear.agrees) against
      · exact absurd held.vacant (require_error_iff.mp stale).1
  · intro refused
    refine ⟨fun recorded => ?_, fun along => absurd (iff.mpr along) refused⟩
    have marked := recorded.implicitPCN
    simp [putPeer] at marked

abbrev Accepted (crypto : Crypto) (origin : Origin) (pc : PreCommit) (r : RoundStates) : Prop :=
  ∃ proposer ∈ r.members, origin.proposer = some proposer ∧
    Tolerated crypto r.peerStateMap (filings proposer origin pc)

/-- A precommit of the round of an empty record is recorded exactly if its proposer is a member and
the records of the other members hold nothing against the proposal and the prevotes that it brings
for them. -/
theorem recorded_iff (crypto : Crypto) (r : RoundStates) (voter : Address) (groupKey : GroupKey)
    (rCert : RCert) (pc : PreCommit) (origin : Origin) (mem : voter ∈ r.members)
    (empty : r.peerStateMap voter = RoundState.initial groupKey rCert)
    (round : pc.proposal.rCert.hr = rCert.hr)
    (prevBlock : pc.proposal.rCert.rClaims.prevBlock = rCert.rClaims.prevBlock)
    (decoded : (Message.preCommit pc).unmarshalCapn = .ok ()) (voted : origin.voter = some voter)
    (signers : ∀ a ∈ origin.signers, a ∈ r.members)
    (legible : ∀ a ∈ r.members, (r.peerStateMap a).Legible) :
    Recorded (afterPreCommit crypto origin pc r) voter pc ↔
      ∃ proposer ∈ r.members, origin.proposer = some proposer ∧
        ∀ a ∈ r.members, a ≠ voter → (r.peerStateMap a).Takes crypto pc.proposal
          (addressed a (filings proposer origin pc)) := by
  have ends : Ends (setPreCommit crypto origin pc) r
      (fun _ r' => Recorded r' voter pc ↔ Accepted crypto origin pc r)
      (fun _ r' => Recorded r' voter pc ↔ Accepted crypto origin pc r) := by
    simp only [setPreCommit, ends_bind]
    refine setInnerProposal_ends.mono ?_ ?_
    · rintro _ _ ⟨proposer, inside, proposed, fits, rfl⟩
      have known : Accepted crypto origin pc r ↔
          Tolerated crypto (stepAt (after crypto) r.peerStateMap (proposer, .proposal pc.proposal))
            (implied (makeImplPreVotes origin pc)) := by
        constructor
        · rintro ⟨other, -, same, -, rest⟩
          obtain rfl := Option.some.inj (proposed.symm.trans same)
          exact rest
        · exact fun rest => ⟨proposer, inside, proposed, fits, rest⟩
      have clear := (voter_open empty round prevBlock decoded crypto proposer origin).2
      rw [← foldl_stepAt, filings, foldl_cons, foldl_stepAt] at clear
      have tail := filePreCommit_ends (r := r.withPeers (stepAt (after crypto) r.peerStateMap
        (proposer, .proposal pc.proposal))) mem voted signers decoded clear
      rw [ends_ite, ends_bind, ends_lift]
      refine ⟨fun _ => ⟨fun _ _ => ?_, fun e fault => ?_⟩, fun _ => ?_⟩
      · exact tail.mono (fun _ _ iff => iff.trans known.symm) fun _ _ impossible => impossible.elim
      · rw [decoded] at fault
        cases fault
      · exact tail.mono (fun _ _ iff => iff.trans known.symm) fun _ _ impossible => impossible.elim
    · rintro _ r' ⟨worse, kept⟩
      constructor
      · intro recorded
        have held := (kept voter).symm.trans recorded.preCommit
        rw [empty] at held
        cases held
      · rintro ⟨proposer, inside, proposed, fits, -⟩
        rw [worse proposer inside proposed] at fits
        cases fits
  have others : Accepted crypto origin pc r ↔ _ :=
    exists_congr fun proposer => and_congr_right fun inside => and_congr_right fun _ =>
      tolerated_iff empty round prevBlock decoded signers inside legible
  rw [← others]
  unfold afterPreCommit
  cases outcome : setPreCommit crypto origin pc r with
  | ok _ _ => exact ends.of_ok outcome
  | error _ _ => exact ends.of_error outcome

end Voter

def sampleRoundStates (table : Address → RoundState) : RoundStates where
  height := 3
  round := 1
  ownState := ⟨1, 0, sampleHeader, sampleHeader, sampleHeader, sampleHeader⟩
  validatorSet := ⟨[1, 2, 3, 4].map fun vAddr => ⟨vAddr, vAddr⟩, 0, 1⟩
  ownValidatingState := none
  peerStateMap := table

def sampleQuorum : PreCommit := ⟨sampleProposal 1, 3, [1, 2, 4]⟩

def sampleOrigin : Origin := ⟨some 3, some 2, 0, 0, [1, 2, 4]⟩

def sampleVotes : Address → List Message
  | 1 => [.preVote ⟨sampleProposal 1, 1⟩]
  | 2 => [.proposal (sampleProposal 1), .preVote ⟨sampleProposal 1, 2⟩]
  | 4 => [.preCommitNil ⟨sampleRCert 3 1, 4⟩]
  | _ => []

def sampleRecords (a : Address) : RoundState :=
  afterAll sampleCrypto (initial 0 (sampleRCert 3 1)) (sampleVotes a)

theorem recorded_next_to_votes :
    (∀ a ∈ [1, 2, 4], sampleRecords a ≠ initial 0 (sampleRCert 3 1)) ∧
      Recorded (afterPreCommit sampleCrypto sampleOrigin sampleQuorum
        (sampleRoundStates sampleRecords)) 3 sampleQuorum := by
  have legible : ∀ a ∈ [1, 2, 3, 4], (sampleRecords a).Legible := by
    unfold Legible
    decide +kernel
  have agrees : ∀ a ∈ [1, 2, 4],
      ((sampleRecords a).resetNHForDBR (.proposal (sampleProposal 1))).Agrees sampleCrypto
        (sampleProposal 1) := by
    intro a mem
    refine ⟨?_, ?_⟩ <;> revert a <;> decide +kernel
  have unbarred : ∀ a ∈ [1, 2, 4], ∀ v ∈ addressed a (filings 2 sampleOrigin sampleQuorum),
      ¬(sampleRecords a).Bars v := by
    decide +kernel
  have rounds : ∀ a ∈ [1, 2, 4], (sampleRecords a).hr = (sampleProposal 1).rCert.hr := by
    decide +kernel
  have others : ∀ a ∈ (sampleRoundStates sampleRecords).members, a ≠ 3 → a ∈ [1, 2, 4] := by decide
  refine ⟨by decide +kernel, (recorded_iff sampleCrypto (sampleRoundStates sampleRecords) 3 0
    (sampleRCert 3 1) sampleQuorum sampleOrigin (by decide) rfl rfl rfl rfl rfl (by decide)
      legible).mpr
    ⟨2, by decide, rfl, fun a mem other => ?_⟩⟩
  have listed := others a mem other
  exact ⟨fun _ => unbarred a listed, fun _ _ => agrees a listed,
    fun earlier => absurd (rounds a listed) earlier.ne⟩

/-- The fourth validator has cast a `PreVoteNil` and the prevote: the third one pays for it. -/
theorem unrecorded_after_equivocation :
    sampleQuorum.validateSignatures sampleCrypto = .ok sampleOrigin ∧
      ((afterPreCommit sampleCrypto sampleOrigin sampleQuorum (sampleRoundStates (update
          (fun _ => initial 0 (sampleRCert 3 1)) 4
          (after sampleCrypto (initial 0 (sampleRCert 3 1))
            (.preVoteNil ⟨sampleRCert 3 1, 4⟩))))).peerStateMap 3) =
        { initial 0 (sampleRCert 3 1) with implicitPCN := true } := by
  decide +kernel

end RoundStates

end AliceNet.Consensus
