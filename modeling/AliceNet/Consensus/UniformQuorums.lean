import AliceNet.Consensus.System

/-! For which block a node commits. -/

namespace AliceNet.Consensus

open Stateful Outcome

variable {α τ : Type} {engine : Engine α τ} {n : Node α τ}

namespace Database

variable {db : Database τ}

/-- The votes of a kind are where `held` says in a record. -/
def Holds {V : Type} (held : RoundState → Option V) (db : Database τ) (vAddr : Address) (v : V) :
    Prop :=
  ∃ rs, db.currentRoundState vAddr = some rs ∧ held rs = some v

/-- The stored votes of a kind that are of one round are for one block. -/
def OneBlock {V : Type} (held : RoundState → Option V) (proposal : V → Proposal) (db : Database τ) :
    Prop :=
  ∀ ⦃a a' : Address⦄ ⦃v v' : V⦄, Holds held db a v → Holds held db a' v' → (proposal v).rCert.hr =
    (proposal v').rCert.hr → (proposal v).pClaims.bClaims = (proposal v').pClaims.bClaims

structure Uniform (db : Database τ) : Prop where
  preVotes : OneBlock RoundState.preVote PreVote.proposal db
  preCommits : OneBlock RoundState.preCommit PreCommit.proposal db

private theorem loadPeers_apply (loaded : db.loadPeers rcert groupKey validators map = .ok peers)
    (a : Address) :
    (a ∈ validators → db.loadPeer rcert groupKey a = .ok (peers a)) ∧
      (a ∉ validators → peers a = map a) := by
  induction validators generalizing map with
  | nil =>
    obtain rfl := pure_ok_iff.mp loaded
    exact ⟨nofun, fun _ => rfl⟩
  | cons head rest ih =>
    obtain ⟨rstate, found, loaded⟩ := bind_ok_iff.mp loaded
    obtain ⟨listed, absent⟩ := ih loaded
    by_cases later : a ∈ rest
    · exact ⟨fun _ => listed later, fun missing => absurd (List.mem_cons_of_mem head later) missing⟩
    · rw [absent later]
      by_cases same : a = head
      · subst same
        rw [Function.update_self]
        exact ⟨fun _ => found, fun missing => absurd (List.mem_cons_self ..) missing⟩
      · rw [Function.update_of_ne same]
        exact ⟨fun mem => absurd ((List.mem_cons.mp mem).resolve_left same) later, fun _ => rfl⟩

private theorem loadPeer_cases (loaded : db.loadPeer rcert groupKey vAddr = .ok rs) :
    db.currentRoundState vAddr = some rs ∨ rs = RoundState.initial groupKey rcert := by
  unfold loadPeer at loaded
  cases held : db.currentRoundState vAddr with
  | none =>
    simp only [held, foundOrNil] at loaded
    obtain ⟨_, missing, rest⟩ := bind_ok_iff.mp loaded
    obtain rfl := pure_ok_iff.mp missing
    obtain ⟨_, _, same⟩ := bind_ok_iff.mp rest
    exact .inr (pure_ok_iff.mp same).symm
  | some stored =>
    simp only [held, foundOrNil, ok_iff] at loaded
    obtain ⟨_, ⟨_, _, rfl⟩, same⟩ := loaded
    exact .inl (congrArg some (pure_ok_iff.mp same))

private theorem loadLocalState_peers (loaded : db.loadLocalState = .ok rs)
    (mem : a ∈ rs.validatorSet.addresses) :
    db.currentRoundState a = some (rs.peerStateMap a) ∨
      ∃ groupKey rcert, rs.peerStateMap a = RoundState.initial groupKey rcert := by
  simp only [loadLocalState, loadState, ok_iff] at loaded
  obtain ⟨_, _, own, _, set, _, _, _, _, _, peers, found, _, _, rfl⟩ := loaded
  rcases loadPeer_cases ((loadPeers_apply found a).1 mem) with stored | fresh
  · exact .inl stored
  · exact .inr ⟨_, _, fresh⟩

end Database

namespace RoundStates

variable {rs : RoundStates}

theorem mem_counted {held : RoundState → Option V} {current : RoundState → RCert → Bool}
    (reads : ∀ b a, current b a = RoundState.currentHR a.hr ((held b).map message))
    (mem : v ∈ (rs.validatorStates.filter (current · rs.rCert)).filterMap held) :
    ∃ a ∈ rs.validatorSet.addresses, held (rs.peerStateMap a) = some v ∧ (message v).hr =
      rs.rCert.hr := by
  obtain ⟨b, counted, found⟩ := List.mem_filterMap.mp mem
  obtain ⟨listed, isCurrent⟩ := List.mem_filter.mp counted
  obtain ⟨a, address, rfl⟩ := List.mem_map.mp listed
  rw [reads, found] at isCurrent
  obtain ⟨w, same, round⟩ := RoundState.currentHR_iff.mp isCurrent
  obtain rfl := Option.some.inj same
  exact ⟨a, address, found, round⟩

end RoundStates

theorem Database.OneBlock.counted {held : RoundState → Option V} {proposal : V → Proposal}
    {message : V → Message} {current : RoundState → RCert → Bool} {rs : RoundStates}
    (oneBlock : OneBlock held proposal db) (loaded : db.loadLocalState = .ok rs)
    (reads : ∀ b a, current b a = RoundState.currentHR a.hr ((held b).map message))
    (round : ∀ v, (message v).hr = (proposal v).rCert.hr)
    (empty : ∀ groupKey rcert, held (RoundState.initial groupKey rcert) = none) {v v' : V}
    (first : v ∈ (rs.validatorStates.filter (current · rs.rCert)).filterMap held)
    (second : v' ∈ (rs.validatorStates.filter (current · rs.rCert)).filterMap held) :
    (proposal v).pClaims.bClaims = (proposal v').pClaims.bClaims := by
  have stored : ∀ v ∈ (rs.validatorStates.filter (current · rs.rCert)).filterMap held,
      (∃ a, Holds held db a v) ∧ (proposal v).rCert.hr = rs.rCert.hr := by
    intro v counted
    obtain ⟨a, mem, found, here⟩ := RoundStates.mem_counted reads counted
    rcases loadLocalState_peers loaded mem with onFile | ⟨groupKey, rcert, fresh⟩
    · exact ⟨⟨a, _, onFile, found⟩, (round v).symm.trans here⟩
    · rw [fresh, empty] at found
      cases found
  obtain ⟨⟨a, holds⟩, here⟩ := stored v first
  obtain ⟨⟨a', holds'⟩, here'⟩ := stored v' second
  exact oneBlock holds holds' (here.trans here'.symm)

theorem length_le_filter {votes : List V} {block : V → BClaims} {bound : ℕ}
    (same : ∀ w ∈ votes, block w = block v) (enough : bound ≤ votes.length) :
    bound ≤ (votes.filter fun w => block w = block v).length := by
  rwa [List.filter_eq_self.mpr fun w mem => decide_eq_true (same w mem)]

/-- The quorum that a call of the engine acts on is one of stored votes for the block it signs. -/
structure Quorate (n n' : Node α τ) : Prop where
  signed : ∃ statements, n'.signed = n.signed ++ statements ∧
    (∀ claims, .preCommit claims ∈ statements → ∃ rs, n.db.loadLocalState = .ok rs ∧
      rs.getCurrentThreshold ≤
        (rs.currentPreVotes.filter fun pv => pv.proposal.pClaims.bClaims = claims.bClaims).length) ∧
    ∀ claims, .nextHeight claims ∈ statements → ∃ rs, n.db.loadLocalState = .ok rs ∧
      ((∃ nh, first rs.currentNextHeights = .ok nh ∧ nh.nhClaims.proposal.pClaims = claims) ∨
        rs.getCurrentThreshold ≤
          (rs.currentPreCommits.filter fun pc => pc.proposal.pClaims.bClaims =
            claims.bClaims).length)
  counted : ∀ rs pc, n.db.loadLocalState = .ok rs → rs.getCurrentThreshold ≤
    rs.currentPreCommits.length → first rs.currentPreCommits = .ok pc → rs.getCurrentThreshold ≤
      (rs.currentPreCommits.filter fun other => other.proposal.pClaims.bClaims =
        pc.proposal.pClaims.bClaims).length

theorem Database.Uniform.preVotes_counted {pv : PreVote} (uniform : n.db.Uniform)
    (loaded : n.db.loadLocalState = .ok rs)
    (enough : rs.getCurrentThreshold ≤ rs.currentPreVotes.length)
    (head : first rs.currentPreVotes = .ok pv) : rs.getCurrentThreshold ≤
      (rs.currentPreVotes.filter fun other => other.proposal.pClaims.bClaims =
        pv.proposal.pClaims.bClaims).length := by
  refine length_le_filter (fun other mem => ?_) enough
  exact uniform.preVotes.counted loaded (fun _ _ => rfl) (fun _ => rfl) (fun _ _ =>
    rfl) mem (first_mem head)

theorem Database.Uniform.preCommits_counted {pc : PreCommit} (uniform : n.db.Uniform)
    (loaded : n.db.loadLocalState = .ok rs)
    (enough : rs.getCurrentThreshold ≤ rs.currentPreCommits.length)
    (head : first rs.currentPreCommits = .ok pc) : rs.getCurrentThreshold ≤
      (rs.currentPreCommits.filter fun other => other.proposal.pClaims.bClaims =
        pc.proposal.pClaims.bClaims).length := by
  refine length_le_filter (fun other mem => ?_) enough
  exact uniform.preCommits.counted loaded (fun _ _ => rfl) (fun _ => rfl) (fun _ _ =>
    rfl) mem (first_mem head)

theorem Node.Utters.quorum (utters : n.Utters n') (uniform : n.db.Uniform) : Quorate n n' := by
  refine ⟨?_, fun rs pc loaded enough head => uniform.preCommits_counted loaded enough head⟩
  rcases utters with
    silent | ⟨rs, s, t, loaded, rfl, begins, ⟨before, after, said, due, pledged, _, noHeight,
    noCommit⟩, ends⟩
  · exact ⟨[], by rw [silent, List.append_nil], nofun, nofun⟩
  refine ⟨before ++ after, by rw [ends, said, begins], fun claims mem => ?_, fun claims mem => ?_⟩
  · rcases List.mem_append.mp mem with early | late
    · obtain ⟨_, enough, head⟩ := pledged claims early
      exact ⟨s.rs, loaded, uniform.preVotes_counted loaded enough head⟩
    · exact absurd late (noCommit claims)
  · rcases List.mem_append.mp mem with early | late
    · refine ⟨s.rs, loaded, ?_⟩
      cases due claims early with
      | follows _ head _ _ => exact .inl ⟨_, head, rfl⟩
      | commits _ enough head => exact .inr (uniform.preCommits_counted loaded enough head)
    · exact absurd late (noHeight claims)

/-- As long as the votes of a round that are on file are for one block, every quorum that the node
acts on is one for the block that it signs. -/
theorem Node.quorate (engine : Engine α τ) (n : Node α τ) (uniform : n.db.Uniform) (now : ℕ)
    (loadStorage : ℕ → Except Fault Storage) :
    Quorate n (n.after engine (.update now loadStorage)) :=
  (n.update_utters engine now loadStorage).quorum uniform

def sampleAgreed : Node Unit Unit where
  db := { sampleDatabase 1 [1, 2, 3, 4] (sampleRCert 2 1) with
    currentRoundState := fun vAddr =>
      some { RoundState.initial 0 (sampleRCert 2 1) with preVote := some ⟨sampleBlock 7, vAddr⟩ } }
  app := ()
  bnSigner := some (1, 0)
  txc _ := none
  signed := []

private theorem sampleAgreed_uniform : sampleAgreed.db.Uniform where
  preVotes := by
    rintro a a' v v' ⟨_, ⟨⟩, ⟨⟩⟩ ⟨_, ⟨⟩, ⟨⟩⟩ -
    rfl
  preCommits := by
    rintro a a' v v' ⟨_, ⟨⟩, ⟨⟩⟩

theorem Node.quorate_agreed :
    Quorate sampleAgreed (sampleAgreed.after sampleEngine (sampleUpdate (10 ^ 9))) ∧
    (sampleAgreed.after sampleEngine (sampleUpdate (10 ^ 9))).signed =
      [.preCommit (sampleBlock 7).pClaims] :=
  ⟨Node.quorate sampleEngine sampleAgreed sampleAgreed_uniform _ _, by decide +kernel⟩

def sampleSplit : List (Event Unit Unit) := [
  .addValidatorSet 0 sampleSet,
  sampleUpdate 0,
  .store ⟨.vote (.proposal (sampleBlock 7)), ⟨none, some 3, 0, 0, []⟩⟩,
  sampleUpdate (10 ^ 9),
  .store ⟨.vote (.preVote ⟨sampleBlock 7, 2⟩), ⟨some 2, some 3, 0, 0, []⟩⟩,
  .store ⟨.vote (.preVote ⟨sampleBlock 8, 4⟩), ⟨some 4, some 3, 0, 0, []⟩⟩]

theorem sampleSplit_possible : ∀ event ∈ sampleSplit, event.Possible sampleEngine := by
  let db := (sampleNode (sampleSplit.take 2)).db
  simp only [sampleSplit, List.forall_mem_cons]
  exact ⟨trivial, trivial, ⟨db, by decide +kernel⟩, trivial, ⟨db, by decide +kernel⟩,
    ⟨db, by decide +kernel⟩, List.forall_mem_nil _⟩

/-- Three prevotes are counted where three are needed; the node commits to a block with two. -/
theorem Run.mixed_quorum : ∃ n, Run sampleEngine Node.Fresh (fun _ _ => True) n ∧
    ¬Quorate n (n.after sampleEngine (sampleUpdate (10 ^ 9))) := by
  refine ⟨sampleNode sampleSplit, sampleNode_run sampleSplit_possible, fun quorate => ?_⟩
  obtain ⟨statements, signs, backed, _⟩ := quorate.signed
  have before : (sampleNode sampleSplit).signed = [.preVote (sampleBlock 7).pClaims] := by
    decide +kernel
  have after : ((sampleNode sampleSplit).after sampleEngine (sampleUpdate (10 ^ 9))).signed =
      [.preVote (sampleBlock 7).pClaims, .preCommit (sampleBlock 7).pClaims] := by
    decide +kernel
  have short : (sampleNode sampleSplit).db.loadLocalState.map (fun rs =>
      decide (rs.getCurrentThreshold ≤
      (rs.currentPreVotes.filter fun pv => pv.proposal.pClaims.bClaims =
        (sampleBlock 7).pClaims.bClaims).length)) = .ok false := by
    decide +kernel
  rw [before, after] at signs
  cases signs
  obtain ⟨rs, loaded, enough⟩ := backed (sampleBlock 7).pClaims (List.mem_singleton_self _)
  rw [loaded] at short
  simp [Except.map, enough] at short

/-- Nothing but `UpdateLocalState` signs, and what the node has signed goes back to a call of it
earlier in the run. There the votes that a `PreCommit` and a `NextHeight` take were on file. -/
theorem Run.statements_backed (run : Run engine Node.Fresh allowed n) :
    (∀ event, (n.after engine event).signed ≠ n.signed → ∃ now loadStorage,
      event = .update now loadStorage) ∧
    ∀ statement ∈ n.signed, ∃ m m' now loadStorage, Run engine Node.Fresh allowed m ∧
      m' = m.after engine (.update now loadStorage) ∧ allowed m (.update now loadStorage) ∧
      Relation.ReflTransGen (Moves engine allowed) m' n ∧
      ∃ statements rs, m'.signed = m.signed ++ statements ∧ statement ∈ statements ∧
        m.db.loadLocalState = .ok rs ∧
        (∀ claims, statement = .preCommit claims → Session.Pledge rs claims) ∧
        ∀ claims, statement = .nextHeight claims → Session.Due rs claims := by
  have calls : ∀ (m : Node α τ) event, (m.after engine event).signed ≠ m.signed →
      ∃ now loadStorage, event = .update now loadStorage := by
    intro m event signs
    by_contra other
    exact signs (m.after_silent engine event fun now loadStorage same =>
      other ⟨now, loadStorage, same⟩)
  refine ⟨calls n, fun statement mem => ?_⟩
  induction run with
  | start begins =>
    rw [begins.signed] at mem
    cases mem
  | @step n event run possible meets ih =>
    by_cases old : statement ∈ n.signed
    · obtain ⟨m, m', now, loadStorage, reached, called, allows, moves, backed⟩ := ih old
      exact ⟨m, m', now, loadStorage, reached, called, allows,
        moves.tail ⟨event, possible, meets, rfl⟩, backed⟩
    obtain ⟨now, loadStorage, rfl⟩ := calls n event fun same => old (same ▸ mem)
    rcases n.update_utters engine now loadStorage with silent | ⟨_, s, t, loaded, rfl, begins,
      ⟨before, after, said, due, pledged, _, noHeight, noCommit⟩, ends⟩
    · exact absurd (silent ▸ mem) old
    have signs := ends.trans (said.trans (congrArg (· ++ (before ++ after)) begins))
    have new := (List.mem_append.mp (signs ▸ mem)).resolve_left old
    refine ⟨n, _, now, loadStorage, run, rfl, meets, .refl, before ++ after, s.rs, signs, new,
      loaded, ?_, ?_⟩
    · rintro claims rfl
      exact pledged claims ((List.mem_append.mp new).resolve_right (noCommit claims))
    · rintro claims rfl
      exact due claims ((List.mem_append.mp new).resolve_right (noHeight claims))

theorem Run.statements_backed_split :
    ∃ m m' : Node Unit Unit, ∃ rs, m.db.loadLocalState = .ok rs ∧
      Session.Pledge rs (sampleBlock 7).pClaims ∧
      Relation.ReflTransGen (Moves sampleEngine fun _ _ => True) m'
        ((sampleNode sampleSplit).after sampleEngine (sampleUpdate (10 ^ 9))) := by
  have run : Run sampleEngine Node.Fresh (fun _ _ => True)
      ((sampleNode sampleSplit).after sampleEngine (sampleUpdate (10 ^ 9))) :=
    (sampleNode_run sampleSplit_possible).step trivial trivial
  obtain ⟨m, m', _, _, _, _, _, moves, _, rs, _, _, loaded, pledged, _⟩ :=
    run.statements_backed.2 (.preCommit (sampleBlock 7).pClaims) (by decide +kernel)
  exact ⟨m, m', rs, loaded, pledged _ rfl, moves⟩

end AliceNet.Consensus
