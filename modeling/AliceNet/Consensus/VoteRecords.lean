import AliceNet.Consensus.PreValidation
import AliceNet.Consensus.Record

/-! The record of one voter under any sequence of its votes, accepted or not. -/

namespace AliceNet.Consensus.RoundState

open Stateful Outcome

variable {crypto : Crypto} {b b' : RoundState} {v w : Message}

def Holds (b : RoundState) : Message → Prop
  | .rCert v => b.rCert = v
  | .proposal v => b.proposal = some v
  | .preVote v => b.preVote = some v
  | .preVoteNil v => b.preVoteNil = some v
  | .preCommit v => b.preCommit = some v
  | .preCommitNil v => b.preCommitNil = some v
  | .nextRound v => b.nextRound = some v
  | .nextHeight v => b.nextHeight = some v

theorem holds_initial {groupKey : GroupKey} {rCert : RCert}
    (holds : (initial groupKey rCert).Holds w) : w = .rCert rCert := by
  cases w with
  | rCert rc => exact congrArg _ (Eq.symm holds)
  | _ => cases holds

theorem Refused.holds (refused : Refused b b') (holds : b'.Holds w) : b.Holds w := by
  cases w with
  | rCert rc => exact refused.rCert.symm.trans holds
  | proposal p => exact refused.proposal.symm.trans holds
  | preVote pv => exact refused.preVote.symm.trans holds
  | preVoteNil pvn => exact refused.preVoteNil.symm.trans holds
  | preCommit pc => exact refused.preCommit.symm.trans holds
  | preCommitNil pcn => exact refused.preCommitNil.symm.trans holds
  | nextRound nr => exact refused.nextRound.symm.trans holds
  | nextHeight nh =>
    rcases refused.nextHeight with same | dropped
    · exact same.symm.trans holds
    · exact absurd (dropped.symm.trans holds) nofun

theorem Refused.holds_iff (refused : Refused b b') (round : ∀ nh, w ≠ .nextHeight nh) :
    b'.Holds w ↔ b.Holds w := by
  cases w with
  | nextHeight nh => exact absurd rfl (round nh)
  | _ => simp [Holds, refused.rCert, refused.proposal, refused.preVote, refused.preVoteNil,
      refused.preCommit,
      refused.preCommitNil, refused.nextRound]

private theorem holds_setType_self (v : Message) : (b.setType v).Holds v := by
  cases v <;> rfl

theorem holds_of_setType (holds : (b.setType v).Holds w) : w = v ∨ b.Holds w := by
  cases v <;> cases w <;> first
    | exact .inr holds
    | exact .inl (by simpa [Holds, setType, eq_comm] using holds)

private theorem holds_setType_of_vacant (vacant : b.Vacant v) (vote : ∀ rc, v ≠ .rCert rc)
    (round : ∀ nh, v ≠ .nextHeight nh) (holds : b.Holds w) : (b.setType v).Holds w := by
  cases v with
  | rCert rc => exact absurd rfl (vote rc)
  | nextHeight nh => exact absurd rfl (round nh)
  | _ => cases w <;> simp_all [Holds, setType, Vacant]

theorem holds_of_setReset (ahead : b.Ahead v) (holds : (b.setReset v).Holds w) :
    w = v ∨ w = .rCert v.extractRCert ∨
      ∃ nh, w = .nextHeight nh ∧ b.Holds w ∧ b.hr.height = v.hr.height := by
  rcases holds_of_setType holds with same | held
  · exact .inl same
  · right
    split at held
    · cases w with
      | rCert rc => exact .inl (congrArg _ (Eq.symm held))
      | _ => cases held
    · rename_i kept
      cases w with
      | rCert rc => exact .inl (congrArg _ (Eq.symm held))
      | nextHeight nh =>
        refine .inr ⟨nh, rfl, held, le_antisymm (HR.height_le ahead.lt.le) (not_lt.mp fun higher =>
          kept ?_)⟩
        have later := relateH_lt.mpr higher
        cases v <;> simp [dropsNextHeight, later]
      | _ => cases held

/-- Two votes are not for different blocks. -/
def SameBlock (crypto : Crypto) (v w : Message) : Prop :=
  ∀ x y, v.extractBClaims = some x → w.extractBClaims = some y → bClaimsEqual crypto x y = .ok true

private theorem bClaimsEqual_comm (same : bClaimsEqual crypto x y = .ok true) :
    bClaimsEqual crypto y x = .ok true := by
  simp only [bClaimsEqual, ok_iff, beq_iff_eq] at same ⊢
  obtain ⟨hash, first, hash', second, same⟩ := same
  exact ⟨hash', second, hash, first, same.symm⟩

theorem SameBlock.symm (same : SameBlock crypto v w) : SameBlock crypto w v :=
  fun x y first second => bClaimsEqual_comm (same y x second first)

theorem sameBlock_of_none (empty : w.extractBClaims = none) : SameBlock crypto v w := by
  intro x y _ second
  rw [empty] at second
  cases second

private theorem sameBlock_of_blockConflict (free : blockConflict crypto v (some w) = .ok false) :
    SameBlock crypto v w := by
  intro x y first second
  simp only [blockConflict, first, Option.bind_some, second, ok_iff] at free
  obtain ⟨equal, outcome, same⟩ := free
  rw [outcome]
  cases equal with
  | true => rfl
  | false => cases same

private theorem blockConflict_of_conflicts (free : conflicts crypto b v = .ok false) :
    blockConflict crypto v (b.proposal.map .proposal) = .ok false ∧
      blockConflict crypto v (b.preVote.map .preVote) = .ok false ∧
      blockConflict crypto v (b.preCommit.map .preCommit) = .ok false := by
  simp only [conflicts] at free
  split at free
  · cases free
  obtain ⟨proposal, onProposal, free⟩ := bind_ok_iff.mp free
  cases proposal with
  | true => cases free
  | false =>
    obtain ⟨preVote, onPreVote, free⟩ := bind_ok_iff.mp free
    cases preVote with
    | true => cases free
    | false =>
      simp only [Bool.false_eq_true, if_false] at free
      split at free
      · cases free
      · obtain ⟨preCommit, onPreCommit, free⟩ := bind_ok_iff.mp free
        cases preCommit with
        | true => cases free
        | false => exact ⟨onProposal, onPreVote, onPreCommit⟩

private theorem sameBlock_of_conflicts (free : conflicts crypto b v = .ok false) (holds : b.Holds w)
    (round : ∀ nh, w ≠ .nextHeight nh) : SameBlock crypto v w := by
  obtain ⟨onProposal, onPreVote, onPreCommit⟩ := blockConflict_of_conflicts free
  cases w with
  | proposal p =>
    rw [show b.proposal = some p from holds] at onProposal
    exact sameBlock_of_blockConflict onProposal
  | preVote pv =>
    rw [show b.preVote = some pv from holds] at onPreVote
    exact sameBlock_of_blockConflict onPreVote
  | preCommit pc =>
    rw [show b.preCommit = some pc from holds] at onPreCommit
    exact sameBlock_of_blockConflict onPreCommit
  | nextHeight nh => exact absurd rfl (round nh)
  | _ => exact sameBlock_of_none rfl

/-- The votes are of the record's round and for one block; a `NextHeight` may be of another. -/
structure Coherent (crypto : Crypto) (b : RoundState) : Prop where
  round : ∀ v, b.Holds v → (∀ nh, v ≠ .nextHeight nh) → v.hr = b.hr
  height : ∀ nh, b.Holds (.nextHeight nh) → nh.rCert.hr.height = b.hr.height
  blocks : ∀ v w, b.Holds v → b.Holds w → (∀ nh, v ≠ .nextHeight nh) → (∀ nh, w ≠ .nextHeight nh) →
    v = w ∨ SameBlock crypto v w

theorem coherent_initial (groupKey : GroupKey) (rCert : RCert) :
    Coherent crypto (initial groupKey rCert) where
  round v holds _ := by rw [holds_initial holds]; rfl
  height nh holds := absurd (holds_initial holds) nofun
  blocks v w first second _ _ := .inl ((holds_initial first).trans (holds_initial second).symm)

theorem setReset_hr (b : RoundState) (v : Message) : (b.setReset v).hr = v.hr :=
  congrArg RCert.hr (setReset_rCert b v)

private theorem joins_hr (joins : b.Joins v) (round : ∀ nh, v ≠ .nextHeight nh) : v.hr = b.hr := by
  cases v with
  | nextHeight nh => exact absurd rfl (round nh)
  | _ => exact joins

theorem Joins.refused (joins : b.Joins v) (refused : Refused b b') : b'.Joins v := by
  cases v <;> simpa [Joins, refused.hr] using joins

theorem Filed.hr_le (vote : ∀ rc, v ≠ .rCert rc) (filed : Filed crypto v b b') : b.hr ≤ b'.hr := by
  cases filed with
  | ahead ahead =>
    rw [setReset_hr]
    exact ahead.lt.le
  | joins joins _ _ _ =>
    have kept : ((b.resetNHForDBR v).setType v).hr = (b.resetNHForDBR v).hr :=
      congrArg RCert.hr (setType_rCert vote)
    rw [kept, (resetNHForDBR_refused b v).hr]

def after (crypto : Crypto) (b : RoundState) (v : Message) : RoundState :=
  match set crypto v b with
  | .ok _ b' => b'
  | .error _ b' => b'

def afterAll (crypto : Crypto) (b : RoundState) (votes : List Message) : RoundState :=
  votes.foldl (after crypto) b

def Accepts (crypto : Crypto) (b : RoundState) (v : Message) : Prop :=
  set crypto v b = .ok true (after crypto b v)

theorem after_cases (vote : ∀ rc, v ≠ .rCert rc) :
    Filed crypto v b (after crypto b v) ∨ Refused b (after crypto b v) := by
  have ends : Ends (set crypto v) b _ _ := set_files vote
  unfold after
  cases outcome : set crypto v b with
  | ok ok b' =>
    have post := ends.of_ok outcome
    cases ok with
    | true => exact .inl post
    | false => exact .inr post
  | error fault b' => exact .inr (ends.of_error outcome)

theorem Accepts.filed (accepts : Accepts crypto b v) (vote : ∀ rc, v ≠ .rCert rc) :
    Filed crypto v b (after crypto b v) :=
  (set_files vote).of_ok accepts

private theorem hr_le_after (b : RoundState) (vote : ∀ rc, v ≠ .rCert rc) :
    b.hr ≤ (after crypto b v).hr := by
  rcases after_cases vote with filed | refused
  · exact filed.hr_le vote
  · exact refused.hr.ge

/-- Votes of the kinds that the seven setters take. -/
def AreVotes (votes : List Message) : Prop := ∀ v ∈ votes, ∀ rc, v ≠ .rCert rc

section

variable (coherent : Coherent crypto b)

include coherent

theorem Coherent.refused (refused : Refused b b') : Coherent crypto b' where
  round v holds round := by
    rw [refused.hr]
    exact coherent.round v (refused.holds holds) round
  height nh holds := by
    rw [refused.hr]
    exact coherent.height nh (refused.holds holds)
  blocks v w first second := coherent.blocks v w (refused.holds first) (refused.holds second)

theorem Coherent.setReset (ahead : b.Ahead v) : Coherent crypto (b.setReset v) where
  round w holds round := by
    rw [setReset_hr]
    rcases holds_of_setReset ahead holds with rfl | rfl | ⟨nh, rfl, -⟩
    · rfl
    · rfl
    · exact absurd rfl (round nh)
  height nh holds := by
    rw [setReset_hr]
    rcases holds_of_setReset ahead holds with rfl | impossible | ⟨-, -, held, same⟩
    · rfl
    · cases impossible
    · exact (coherent.height nh held).trans same
  blocks u w first second roundU roundW := by
    rcases holds_of_setReset ahead first with rfl | rfl | ⟨nh, rfl, -⟩
    · rcases holds_of_setReset ahead second with rfl | rfl | ⟨nh, rfl, -⟩
      · exact .inl rfl
      · exact .inr (sameBlock_of_none rfl)
      · exact absurd rfl (roundW nh)
    · exact .inr (sameBlock_of_none rfl).symm
    · exact absurd rfl (roundU nh)

theorem Coherent.setType (vote : ∀ rc, v ≠ .rCert rc) (joins : b.Joins v)
    (free : conflicts crypto b v = .ok false) : Coherent crypto (b.setType v) := by
  have same : (b.setType v).hr = b.hr := congrArg RCert.hr (setType_rCert vote)
  refine ⟨fun w holds round => ?_, fun nh holds => ?_, fun u w first second roundU roundW => ?_⟩
  · rw [same]
    rcases holds_of_setType holds with rfl | held
    · exact joins_hr joins round
    · exact coherent.round w held round
  · rw [same]
    rcases holds_of_setType holds with rfl | held
    · exact joins
    · exact coherent.height nh held
  · rcases holds_of_setType first with rfl | heldU
    · rcases holds_of_setType second with rfl | heldW
      · exact .inl rfl
      · exact .inr (sameBlock_of_conflicts free heldW roundW)
    · rcases holds_of_setType second with rfl | heldW
      · exact .inr (sameBlock_of_conflicts free heldU roundU).symm
      · exact coherent.blocks u w heldU heldW roundU roundW

theorem Coherent.filed (vote : ∀ rc, v ≠ .rCert rc)
    (filed : Filed crypto v b b') : Coherent crypto b' := by
  cases filed with
  | ahead ahead => exact coherent.setReset ahead
  | joins joins _ free _ =>
    have dropped := resetNHForDBR_refused b v
    exact (coherent.refused dropped).setType vote (joins.refused dropped) free

theorem Coherent.after (vote : ∀ rc, v ≠ .rCert rc) :
    Coherent crypto (after crypto b v) := by
  rcases after_cases vote with filed | refused
  · exact coherent.filed vote filed
  · exact coherent.refused refused

theorem Coherent.afterAll (kinds : AreVotes votes) :
    Coherent crypto (afterAll crypto b votes) := by
  induction votes generalizing b with
  | nil => exact coherent
  | cons v rest ih =>
    obtain ⟨vote, kinds⟩ := List.forall_mem_cons.mp kinds
    exact ih (coherent.after vote) kinds

end

private theorem hr_le_afterAll (kinds : AreVotes votes) : b.hr ≤ (afterAll crypto b votes).hr := by
  induction votes generalizing b with
  | nil => exact le_rfl
  | cons v rest ih =>
    obtain ⟨vote, kinds⟩ := List.forall_mem_cons.mp kinds
    exact (hr_le_after b vote).trans (ih kinds)

/-- Whatever votes reach a fresh record, in whatever order: the record is coherent, and with every
further vote its round stays or grows. -/
theorem afterAll_coherent (crypto : Crypto) (groupKey : GroupKey) (rCert : RCert)
    (votes more : List Message) (kinds : AreVotes (votes ++ more)) :
    Coherent crypto (afterAll crypto (initial groupKey rCert) votes) ∧
      (afterAll crypto (initial groupKey rCert) votes).hr ≤
        (afterAll crypto (initial groupKey rCert) (votes ++ more)).hr := by
  obtain ⟨kinds, later⟩ := List.forall_mem_append.mp kinds
  refine ⟨(coherent_initial groupKey rCert).afterAll kinds, ?_⟩
  rw [afterAll, afterAll, List.foldl_append]
  exact hr_le_afterAll later

def sampleProposal (round : ℕ) : Proposal := ⟨⟨⟨1, 3, 0, 0, 0, 0, 0⟩, sampleRCert 3 round⟩, 2, []⟩

def samplePreCommit (round : ℕ) : Message := .preCommit ⟨sampleProposal round, 2, []⟩

/-- A vote of the round, then one of the next. -/
theorem afterAll_coherent_rounds :
    Coherent sampleCrypto (afterAll sampleCrypto (initial 0 (sampleRCert 3 1))
      [samplePreCommit 1]) ∧
      (afterAll sampleCrypto (initial 0 (sampleRCert 3 1)) [samplePreCommit 1]).hr ≤
        (afterAll sampleCrypto (initial 0 (sampleRCert 3 1)) ([samplePreCommit 1] ++
          [sampleNil 3 2])).hr :=
  afterAll_coherent sampleCrypto 0 (sampleRCert 3 1) [samplePreCommit 1] [sampleNil 3 2]
    (by simp [AreVotes, samplePreCommit, sampleNil])

/-- The kinds of votes of which a validator may cast one in a round. -/
def Excludes : Message → Message → Prop
  | .preVote _, .preVoteNil _ | .preVoteNil _, .preVote _ => True
  | .preCommit _, .preCommitNil _ | .preCommitNil _, .preCommit _ => True
  | .preCommit _, .preVoteNil _ | .preVoteNil _, .preCommit _ => True
  | _, _ => False

theorem Excludes.symm (excludes : Excludes v w) : Excludes w v := by
  cases v <;> cases w <;> exact excludes

/-- No two votes of one round that exclude each other are held. -/
def Exclusive (b : RoundState) : Prop :=
  ∀ v w, b.Holds v → b.Holds w → v.hr = w.hr → ¬Excludes v w

def Admits (b : RoundState) (v : Message) : Prop :=
  ∀ pvn, v = .preVoteNil pvn → ∀ pc, b.preCommit = some pc → pc.proposal.rCert.hr ≠ pvn.rCert.hr

private theorem exclusive_initial (groupKey : GroupKey) (rCert : RCert) :
    (initial groupKey rCert).Exclusive := by
  intro v w first second _ excludes
  rw [holds_initial first] at excludes
  cases excludes

private theorem not_excludes_self : ¬Excludes v v := by
  cases v <;> exact id

private theorem not_excludes_of_checks (fit : checkSameTypeConflict b v = .ok ())
    (admits : b.Admits v) (holds : b.Holds w) (same : v.hr = w.hr) : ¬Excludes v w := by
  intro excludes
  cases v <;> cases w <;> first
    | exact excludes
    | exact admits _ rfl _ holds same.symm
    | simp_all [checkSameTypeConflict, Holds, bind_ok_iff]

theorem Admits.refused (admits : b.Admits v) (refused : Refused b b') : b'.Admits v := by
  intro pvn kind pc held
  exact admits pvn kind pc (refused.preCommit.symm.trans held)

/-- Every vote of the sequence is admitted by the record it meets. -/
def AdmitsAll (crypto : Crypto) (b : RoundState) : List Message → Prop
  | [] => True
  | v :: rest => b.Admits v ∧ AdmitsAll crypto (after crypto b v) rest

theorem Filed.holds (filed : Filed crypto v b b') : b'.Holds v := by
  cases filed with
  | ahead _ => exact holds_setType_self v
  | joins _ _ _ _ => exact holds_setType_self v

theorem Filed.keeps (filed : Filed crypto v b b') (holds : b.Holds w) (same : v.hr = b.hr)
    (vote : ∀ rc, v ≠ .rCert rc) (roundV : ∀ nh, v ≠ .nextHeight nh)
    (roundW : ∀ nh, w ≠ .nextHeight nh) : b'.Holds w := by
  cases filed with
  | ahead ahead => exact absurd same ahead.lt.ne'
  | joins _ fit _ fresh =>
    have held := ((resetNHForDBR_refused b v).holds_iff roundW).mpr holds
    exact holds_setType_of_vacant (vacant_of_checks fit fresh) vote roundV held

section

variable (exclusive : b.Exclusive)

include exclusive

theorem Exclusive.refused (refused : Refused b b') : b'.Exclusive :=
  fun v w first second => exclusive v w (refused.holds first) (refused.holds second)

theorem Exclusive.filed (admits : b.Admits v) (filed : Filed crypto v b b') :
    b'.Exclusive := by
  cases filed with
  | ahead ahead =>
    -- the record starts anew: next to the vote there are only kinds that exclude nothing
    intro u w first second _ excludes
    rcases holds_of_setReset ahead first with rfl | rfl | ⟨nh, rfl, -⟩
    · rcases holds_of_setReset ahead second with rfl | rfl | ⟨nh, rfl, -⟩
      · exact not_excludes_self excludes
      · exact excludes.symm
      · exact excludes.symm
    · exact excludes
    · exact excludes
  | joins joins fit _ _ =>
    have dropped := resetNHForDBR_refused b v
    have blocked := fun w => not_excludes_of_checks (w := w) fit (admits.refused dropped)
    intro u w first second same excludes
    rcases holds_of_setType first with rfl | heldU
    · rcases holds_of_setType second with rfl | heldW
      · exact not_excludes_self excludes
      · exact blocked w heldW same excludes
    · rcases holds_of_setType second with rfl | heldW
      · exact blocked u heldU same.symm excludes.symm
      · exact exclusive.refused dropped u w heldU heldW same excludes

theorem Exclusive.after (vote : ∀ rc, v ≠ .rCert rc) (admits : b.Admits v) :
    (after crypto b v).Exclusive := by
  rcases after_cases vote with filed | refused
  · exact exclusive.filed admits filed
  · exact exclusive.refused refused

theorem Exclusive.afterAll (kinds : AreVotes votes)
    (admitted : AdmitsAll crypto b votes) : (afterAll crypto b votes).Exclusive := by
  induction votes generalizing b with
  | nil => exact exclusive
  | cons v rest ih =>
    obtain ⟨vote, kinds⟩ := List.forall_mem_cons.mp kinds
    exact ih (exclusive.after vote admitted.1) kinds admitted.2

private theorem not_accepts_second (coherent : Coherent crypto b) (excludes : Excludes v w)
    (same : v.hr = w.hr) (accepts : Accepts crypto b v) (admitsV : b.Admits v)
    (admits : (after crypto b v).Admits w) : ¬Accepts crypto (after crypto b v) w := by
  intro second
  have voteV : ∀ rc, v ≠ .rCert rc := by rintro rc rfl; exact excludes
  have voteW : ∀ rc, w ≠ .rCert rc := by rintro rc rfl; exact excludes.symm
  have roundV : ∀ nh, v ≠ .nextHeight nh := by rintro nh rfl; exact excludes
  have roundW : ∀ nh, w ≠ .nextHeight nh := by rintro nh rfl; exact excludes.symm
  have first := accepts.filed voteV
  have round : v.hr = (after crypto b v).hr := (coherent.after voteV).round v first.holds roundV
  have filed := second.filed voteW
  have kept := filed.keeps first.holds (same.symm.trans round) voteW roundW roundV
  exact (exclusive.after voteV admitsV).after voteW admits v w kept filed.holds same excludes

end

/-- While no `PreVoteNil` meets a `PreCommit` of its round, a record never holds votes that exclude
each other, and of two such votes the one that comes second is turned away, in either order. -/
theorem afterAll_exclusive (crypto : Crypto) (groupKey : GroupKey) (rCert : RCert)
    (votes : List Message) (kinds : AreVotes votes)
    (admitted : AdmitsAll crypto (initial groupKey rCert) votes) :
    (afterAll crypto (initial groupKey rCert) votes).Exclusive ∧
      ∀ first second, Excludes first second → first.hr = second.hr →
        AdmitsAll crypto (afterAll crypto (initial groupKey rCert) votes) [first, second] →
        Accepts crypto (afterAll crypto (initial groupKey rCert) votes) first →
        ¬Accepts crypto (after crypto (afterAll crypto (initial groupKey rCert) votes) first)
          second := by
  have exclusive := (exclusive_initial groupKey rCert).afterAll kinds admitted
  refine ⟨exclusive, fun first second excludes same admits accepts => ?_⟩
  have coherent : Coherent crypto _ := (coherent_initial groupKey rCert).afterAll kinds
  exact not_accepts_second exclusive coherent excludes same accepts admits.1 admits.2.1

/-- After a `PreCommit` of the first round, in the second round the nil vote comes first. -/
theorem afterAll_exclusive_nil_first :
    let b := afterAll sampleCrypto (initial 0 (sampleRCert 3 1)) [samplePreCommit 1]
    Accepts sampleCrypto b (sampleNil 3 2) ∧
      ¬Accepts sampleCrypto (after sampleCrypto b (sampleNil 3 2)) (samplePreCommit 2) := by
  refine ⟨rfl, (afterAll_exclusive sampleCrypto 0 (sampleRCert 3 1) [samplePreCommit 1]
    (by simp [AreVotes, samplePreCommit]) ⟨fun _ kind => (nomatch kind), trivial⟩).2 (sampleNil 3 2)
    (samplePreCommit 2) trivial rfl ⟨?_, fun _ kind => (nomatch kind), trivial⟩ rfl⟩
  rintro pvn ⟨⟩ pc ⟨⟩
  decide

/-- The `PreCommit` is turned away after the `PreVoteNil`, but the `PreVoteNil` joins the
`PreCommit`. -/
theorem preVoteNil_joins_preCommit :
    Excludes (samplePreCommit 1) (sampleNil 3 1) ∧ (samplePreCommit 1).hr = (sampleNil 3 1).hr ∧
      ¬(afterAll sampleCrypto (initial 0 (sampleRCert 3 1)) [samplePreCommit 1,
        sampleNil 3 1]).Exclusive ∧
      ¬Accepts sampleCrypto (after sampleCrypto (initial 0 (sampleRCert 3 1)) (sampleNil 3 1))
        (samplePreCommit 1) ∧
      Accepts sampleCrypto (after sampleCrypto (initial 0 (sampleRCert 3 1)) (samplePreCommit 1))
        (sampleNil 3 1) := by
  refine ⟨trivial, rfl, fun exclusive =>
    exclusive (samplePreCommit 1) (sampleNil 3 1) rfl rfl rfl trivial, ?_, rfl⟩
  intro accepts
  cases accepts

end AliceNet.Consensus.RoundState
