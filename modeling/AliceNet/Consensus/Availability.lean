import AliceNet.Consensus.System

/-! Which transactions of a proposal a node has when it decides about the proposal. -/

namespace AliceNet.Consensus

open Stateful Outcome List

variable {α τ : Type} {engine : Engine α τ}

def hashesOf (app : Application α τ) (txs : List τ) : List Hash := txs.filterMap fun tx =>
    (app.txHash tx).toOption

private theorem hashesOf_append (app : Application α τ) (first second : List τ) :
    hashesOf app (first ++ second) = hashesOf app first ++ hashesOf app second := filterMap_append

namespace TxResult

variable {app : Application α τ} {t t' t'' : TxResult τ}

/-- The transactions found are those of the hashes obtained, each once. -/
structure Exact (app : Application α τ) (t : TxResult τ) : Prop where
  hashes : t.txs.map app.txHash = t.obtained.map .ok
  nodup : t.obtained.Nodup
  wanted : ∀ h ∈ t.obtained, h ∈ t.wanted

/-- What transactions do to a result to which they are added -/
structure Adds (app : Application α τ) (txs : List τ) (t t' : TxResult τ) : Prop where
  wanted : t'.wanted = t.wanted
  obtained : ∀ h, h ∈ t'.obtained ↔ h ∈ t.obtained ∨ h ∈ hashesOf app txs ∧ h ∈ t.wanted
  hashed : ∀ tx ∈ txs, ∃ h, app.txHash tx = .ok h
  exact : t.Exact app → t'.Exact app

theorem Adds.nil : Adds app [] t t where
  wanted := rfl
  obtained := by simp [hashesOf]
  hashed := by simp
  exact exact := exact

theorem Adds.append {first second : List τ} (adds : Adds app first t t')
    (adds' : Adds app second t' t'') : Adds app (first ++ second) t t'' where
  wanted := adds'.wanted.trans adds.wanted
  obtained h := by
    rw [adds'.obtained, adds.obtained, adds.wanted, hashesOf_append, mem_append]
    tauto
  hashed tx mem := (mem_append.mp mem).elim (adds.hashed tx) (adds'.hashed tx)
  exact exact := adds'.exact (adds.exact exact)

theorem add_adds (ran : t.add app tx = .ok t') : Adds app [tx] t t' := by
  obtain ⟨h, hashed, ran⟩ := bind_ok_iff.mp ran
  have only : hashesOf app [tx] = [h] := by simp [hashesOf, hashed, Except.toOption]
  split at ran
  · rename_i fresh
    obtain rfl := pure_ok_iff.mp ran
    refine ⟨rfl, fun k => ?_, by simpa using ⟨h, hashed⟩, fun exact => ⟨?_, ?_, ?_⟩⟩
    · simp only [only, mem_append, mem_singleton]
      constructor
      · rintro (old | rfl)
        · exact .inl old
        · exact .inr ⟨rfl, fresh.1⟩
      · rintro (old | ⟨rfl, _⟩)
        · exact .inl old
        · exact .inr rfl
    · simp [exact.hashes, hashed]
    · exact Nodup.append exact.nodup (nodup_singleton h) (by simpa using fresh.2)
    · intro k mem
      rcases mem_append.mp mem with old | new
      · exact exact.wanted k old
      · rw [mem_singleton.mp new]
        exact fresh.1
  · rename_i known
    obtain rfl := pure_ok_iff.mp ran
    refine ⟨rfl, fun k => ?_, by simpa using ⟨h, hashed⟩, fun exact => exact⟩
    simp only [only, mem_singleton]
    constructor
    · exact .inl
    · rintro (old | ⟨rfl, wanted⟩)
      · exact old
      · by_contra missing
        exact known ⟨wanted, missing⟩

theorem addFrom_adds {lookup : Hash → Option τ} (ran : t.addFrom app lookup hashes = .ok t') :
    Adds app (hashes.filterMap lookup) t t' := by
  induction hashes generalizing t with
  | nil =>
    obtain rfl := pure_ok_iff.mp ran
    exact .nil
  | cons h rest ih =>
    rw [addFrom] at ran
    cases found : lookup h with
    | none =>
      rw [found] at ran
      rw [filterMap_cons_none found]
      exact ih ran
    | some tx =>
      rw [found] at ran
      obtain ⟨t₁, added, ran⟩ := bind_ok_iff.mp ran
      rw [filterMap_cons_some found]
      exact (add_adds added).append (ih ran)

theorem addMany_adds {txs : List τ} (ran : t.addMany app txs = .ok t') : Adds app txs t t' := by
  induction txs generalizing t with
  | nil =>
    obtain rfl := pure_ok_iff.mp ran
    exact .nil
  | cons tx rest ih =>
    rw [addMany] at ran
    cases added : t.add app tx with
    | error e =>
      rw [added] at ran
      cases later : t.addMany app rest <;> simp [later] at ran
    | ok t₁ =>
      rw [added] at ran
      exact (add_adds added).append (ih ran)

theorem add_error (failure : t.add app tx = .error e) : app.txHash tx = .error e := by
  unfold add at failure
  cases hashed : app.txHash tx with
  | error e' =>
    simp only [hashed] at failure
    obtain rfl := Except.error.inj failure
    rfl
  | ok h =>
    simp only [hashed] at failure
    revert failure
    show (ite _ _ _ = _ → _)
    split <;> exact nofun

theorem addFrom_error {lookup : Hash → Option τ} {e : Fault}
    (failure : t.addFrom app lookup hashes = .error e) :
    ∃ tx ∈ hashes.filterMap lookup, app.txHash tx = .error e := by
  induction hashes generalizing t with
  | nil => cases failure
  | cons h rest ih =>
    rw [addFrom] at failure
    cases found : lookup h with
    | none =>
      rw [found] at failure
      rw [filterMap_cons_none found]
      exact ih failure
    | some tx =>
      rw [found] at failure
      rw [filterMap_cons_some found]
      cases added : t.add app tx with
      | error e' =>
        simp only [added] at failure
        obtain rfl := Except.error.inj failure
        exact ⟨tx, mem_cons_self .., add_error added⟩
      | ok t₁ =>
        simp only [added] at failure
        obtain ⟨other, mem, hashed⟩ := ih failure
        exact ⟨other, mem_cons_of_mem _ mem, hashed⟩

theorem addMany_error {txs : List τ} (failure : t.addMany app txs = .error e) :
    ∃ tx ∈ txs, app.txHash tx = .error e := by
  induction txs generalizing t e with
  | nil => cases failure
  | cons tx rest ih =>
    rw [addMany] at failure
    have later : ∀ {t₁ : TxResult τ} {e'}, t₁.addMany app rest = .error e' → ∃ tx' ∈ tx :: rest,
        app.txHash tx' = .error e' := by
      intro t₁ e' failure
      obtain ⟨other, mem, hashed⟩ := ih failure
      exact ⟨other, mem_cons_of_mem _ mem, hashed⟩
    cases added : t.add app tx with
    | ok t₁ =>
      rw [added] at failure
      exact later failure
    | error e' =>
      simp only [added] at failure
      cases others : t.addMany app rest with
      | ok t₁ =>
        simp only [others] at failure
        obtain rfl := Except.error.inj failure
        exact ⟨tx, mem_cons_self .., add_error added⟩
      | error last =>
        simp only [others] at failure
        obtain rfl := Except.error.inj failure
        exact later others

theorem Exact.mem_obtained (exact : t.Exact app) :
    h ∈ t.obtained ↔ ∃ tx ∈ t.txs, app.txHash tx = .ok h := by
  rw [← mem_map, exact.hashes, mem_map]
  simp

theorem Adds.missing {txs : List τ} (adds : Adds app txs t t') :
    t'.missing = t.missing.filter fun h => h ∉ hashesOf app txs := by
  rw [TxResult.missing, TxResult.missing, adds.wanted, filter_filter]
  refine filter_congr fun h mem => ?_
  rw [← Bool.decide_and, decide_eq_decide, adds.obtained]
  tauto

end TxResult

section Places

variable (engine : Engine α τ) (n : Node α τ) (height : ℕ) (txLst : List Hash)

/-- What the cache has for the hashes of a list -/
def cachedTxs : List τ := txLst.dedup.filterMap (n.db.txCache height)

def uncached : List Hash := txLst.dedup.filter fun h =>
    h ∉ hashesOf engine.app (cachedTxs n height txLst)

def pooledTxs : List τ :=
    (pendingFound engine n.app height (uncached engine n height txLst)).toOption.getD []

def unpooled : List Hash :=
  (uncached engine n height txLst).filter fun h =>
    h ∉ hashesOf engine.app (pooledTxs engine n height txLst)

/-- What was downloaded for the hashes that are left -/
def downloadedTxs : List τ := (unpooled engine n height txLst).filterMap fun h =>
    (n.txc h).map Prod.snd

/-- Every hash of the list is that of a transaction in one of the three places. -/
structure Held : Prop where
  hashed : ∀ tx ∈ cachedTxs n height txLst ++ pooledTxs engine n height txLst ++
    downloadedTxs engine n height txLst, ∃ h, engine.app.txHash tx = .ok h
  all : ∀ h ∈ unpooled engine n height txLst,
    h ∈ hashesOf engine.app (downloadedTxs engine n height txLst)

end Places

section GetTxs

variable {n n' : Node α τ} {height : ℕ} {txLst : List Hash}

structure Searched (engine : Engine α τ) (n : Node α τ) (height : ℕ) (txLst : List Hash)
    (txs : List τ) (left : List Hash) : Prop where
  hashed : ∀ tx ∈ cachedTxs n height txLst ++ pooledTxs engine n height txLst ++
    downloadedTxs engine n height txLst, ∃ h, engine.app.txHash tx = .ok h
  lacks : left = (unpooled engine n height txLst).filter fun h =>
    h ∉ hashesOf engine.app (downloadedTxs engine n height txLst)
  found : ∀ h ∈ txLst, h ∈ left ∨ ∃ tx ∈ txs, engine.app.txHash tx = .ok h
  apart : ∀ h ∈ left, h ∈ txLst ∧ ∀ tx ∈ txs, engine.app.txHash tx ≠ .ok h
  only : ∀ tx ∈ txs, ∃ h ∈ txLst, engine.app.txHash tx = .ok h
  once : (txs.map engine.app.txHash).Nodup

theorem addTxs_ends (height : ℕ) (txs : List τ) (n : Node α τ) :
    Ends (addTxs engine height txs) n (fun _ n' => n.Cached n')
      fun e _ => ∃ tx ∈ txs, engine.app.txHash tx = .error e := by
  have keeps : Ends (addTxs engine height txs) n (fun _ n' => n.Cached n') fun _ n' =>
    n.Cached n' := addTxs_keeps height txs n
  have fails : Ends (addTxs engine height txs) n (fun _ _ => True) fun e _ => ∃ tx ∈ txs,
      engine.app.txHash tx = .error e := by
    clear keeps
    induction txs generalizing n with
    | nil => trivial
    | cons tx rest ih =>
      simp only [addTxs, ends_bind, ends_lift, ends_modify]
      refine ⟨fun h _ => (ih _).mono (fun _ _ _ => trivial) ?_, fun e failure =>
        ⟨tx, mem_cons_self .., failure⟩⟩
      rintro e _ ⟨other, mem, failure⟩
      exact ⟨other, mem_cons_of_mem _ mem, failure⟩
  exact (keeps.and fails).mono (fun _ _ both => both.1) fun _ _ both => both.2

theorem Held.not_error (held : Held engine n height txLst) {tx : τ}
    (mem : tx ∈ cachedTxs n height txLst ++ pooledTxs engine n height txLst ++
      downloadedTxs engine n height txLst) : engine.app.txHash tx ≠ .error e := by
  obtain ⟨h, hashed⟩ := held.hashed tx mem
  rw [hashed]
  exact nofun

private theorem pendingFound_not_missing {hashes : List Hash} :
    pendingFound engine n.app height hashes ≠ .error .missingTransactions := by
  unfold pendingFound
  cases pendingTxGet engine n.app height hashes with
  | ok found => exact nofun
  | error e =>
    cases e <;> simp [Fault.tolerable, pure, Except.pure, throw, throwThe, MonadExceptOf.throw]

theorem Searched.of_adds {result : TxResult τ}
    (adds : TxResult.Adds engine.app (cachedTxs n height txLst ++ pooledTxs engine n height txLst ++
      downloadedTxs engine n height txLst) (TxResult.init txLst) result)
    (lacks : result.missing = (unpooled engine n height txLst).filter fun h =>
      h ∉ hashesOf engine.app (downloadedTxs engine n height txLst)) :
    Searched engine n height txLst result.txs result.missing := by
  have exact := adds.exact ⟨rfl, nodup_nil, nofun⟩
  have wanted : ∀ h, h ∈ result.wanted ↔ h ∈ txLst := fun h => by
    rw [adds.wanted]
    exact mem_dedup
  refine ⟨adds.hashed, lacks, fun h listed => ?_, fun h left => ?_, fun tx mem => ?_, ?_⟩
  · by_cases got : h ∈ result.obtained
    · exact .inr (exact.mem_obtained.mp got)
    · exact .inl (mem_filter.mpr ⟨(wanted h).mpr listed, decide_eq_true got⟩)
  · obtain ⟨listed, lacking⟩ := mem_filter.mp left
    refine ⟨(wanted h).mp listed, fun tx mem same => of_decide_eq_true lacking ?_⟩
    exact exact.mem_obtained.mpr ⟨tx, mem, same⟩
  · have hashed : engine.app.txHash tx ∈ result.txs.map engine.app.txHash := mem_map_of_mem mem
    rw [exact.hashes] at hashed
    obtain ⟨h, got, same⟩ := mem_map.mp hashed
    exact ⟨h, (wanted h).mp (exact.wanted h got), same.symm⟩
  · rw [exact.hashes]
    exact exact.nodup.map fun _ _ => Except.ok.inj

theorem getTxs_ends (n : Node α τ) (height : ℕ) (txLst : List Hash) :
    Ends (getTxs engine height txLst) n
      (fun result n' => n.Cached n' ∧ Searched engine n height txLst result.1 result.2)
      fun e _ => e = .missingTransactions → ¬ Held engine n height txLst := by
  have initial : (TxResult.init (τ := τ) txLst).missing = txLst.dedup := by simp [TxResult.missing,
    TxResult.init]
  simp only [getTxs, ends_bind, ends_get, ends_lift, initial]
  refine ⟨fun cached lookedUp => ⟨fun found pool => ?_, fun e failure missing => ?_⟩,
    fun e failure missing held => ?_⟩
  · have adds := TxResult.addFrom_adds lookedUp
    have asked : cached.missing = uncached engine n height txLst := by
      rw [adds.missing, initial]
      rfl
    have pooled : pooledTxs engine n height txLst = found := by
      rw [pooledTxs, ← asked, pool]
      rfl
    subst pooled
    refine (addTxs_ends height _ n).mono (fun _ n₁ kept =>
      ⟨fun more joined => ⟨fun result last => ⟨kept, ?_⟩, ?_⟩, ?_⟩) ?_
    · have adds' := TxResult.addMany_adds joined
      have rest : more.missing = unpooled engine n height txLst := by
        rw [adds'.missing, asked]
        rfl
      rw [rest] at last
      have adds'' := TxResult.addMany_adds last
      exact Searched.of_adds ((adds.append adds').append adds'') (by rw [adds''.missing, rest]; rfl)
    · intro e failure missing held
      have rest : more.missing = unpooled engine n height txLst := by
        rw [(TxResult.addMany_adds joined).missing, asked]
        rfl
      rw [rest] at failure
      obtain ⟨tx, mem, failed⟩ := TxResult.addMany_error failure
      exact held.not_error (mem_append_right _ mem) failed
    · intro e failure missing held
      obtain ⟨tx, mem, failed⟩ := TxResult.addMany_error failure
      exact held.not_error (mem_append_left _ (mem_append_right _ mem)) failed
    · rintro e _ ⟨tx, mem, failed⟩ missing held
      exact held.not_error (mem_append_left _ (mem_append_right _ mem)) failed
  · -- a missing transaction is no error of the pool
    subst missing
    exact (pendingFound_not_missing failure).elim
  · obtain ⟨tx, mem, failed⟩ := TxResult.addFrom_error failure
    exact held.not_error (mem_append_left _ (mem_append_left _ mem)) failed

end GetTxs

/-- The transactions about which the application is asked -/
def Submits (engine : Engine α τ) (n : Node α τ) (p : Proposal) (txs : List τ) : Prop :=
  (∃ left n', getTxs engine p.pClaims.bClaims.height p.txHshLst n = .ok (txs, left) n') ∨
    txs = [] ∧ ∃ n', getTxs engine p.pClaims.bClaims.height p.txHshLst n =
      .error .missingTransactions n'

def Accepts (engine : Engine α τ) (s : Session α τ) (p : Proposal) (txs : List τ) : Prop :=
  engine.app.isValid s.node.app p.pClaims.bClaims.chainID (s.rs.ownState.syncToBH.bClaims.height +
    1) p.pClaims.bClaims.stateRoot txs = .ok true

structure Examined (engine : Engine α τ) (s : Session α τ) (p : Proposal) (txs : List τ) :
  Prop where
  asked : Submits engine s.node p txs
  accepted : Accepts engine s p txs
  complete : ∀ h ∈ p.txHshLst, ∃ tx ∈ txs, engine.app.txHash tx = .ok h
  only : ∀ tx ∈ txs, ∃ h ∈ p.txHshLst, engine.app.txHash tx = .ok h
  once : (txs.map engine.app.txHash).Nodup

section Decisions

variable {s t : Session α τ} {p : Proposal} {txs : List τ}

theorem Submits.unique (asked : Submits engine n p txs) (asked' : Submits engine n p txs') :
    txs = txs' := by
  rcases asked with ⟨_, _, found⟩ | ⟨rfl, _, failed⟩ <;> rcases asked' with
    ⟨_, _, found'⟩ | ⟨rfl, _, failed'⟩
  · rw [found] at found'
    cases found'
    rfl
  · rw [found] at failed'
    cases failed'
  · rw [failed] at found'
    cases found'
  · rfl

private theorem held_nil : Held engine n height [] where
  hashed := nofun
  all := nofun

theorem Searched.complete_iff (searched : Searched engine n height txLst txs left) :
    (∀ h ∈ txLst, ∃ tx ∈ txs, engine.app.txHash tx = .ok h) ↔ Held engine n height txLst := by
  constructor
  · intro complete
    refine ⟨searched.hashed, fun h mem => ?_⟩
    by_contra lacking
    have left : h ∈ left := by
      rw [searched.lacks]
      exact mem_filter.mpr ⟨mem, decide_eq_true lacking⟩
    obtain ⟨listed, apart⟩ := searched.apart h left
    obtain ⟨tx, found, same⟩ := complete h listed
    exact apart tx found same
  · intro held h listed
    refine (searched.found h listed).resolve_left fun left => ?_
    rw [searched.lacks] at left
    obtain ⟨mem, lacking⟩ := mem_filter.mp left
    exact of_decide_eq_true lacking (held.all h mem)

private theorem examined_iff (asked : Submits engine s.node p txs)
    (accepted : Accepts engine s p txs) :
    (∃ txs, Examined engine s p txs) ↔ Held engine s.node p.pClaims.bClaims.height p.txHshLst := by
  have ends : Ends (getTxs engine p.pClaims.bClaims.height p.txHshLst) s.node _ _ :=
    getTxs_ends _ _ _
  constructor
  · rintro ⟨txs', examined⟩
    obtain rfl := asked.unique examined.asked
    rcases asked with ⟨left, n', found⟩ | ⟨rfl, n', failed⟩
    · exact (ends.of_ok found).2.complete_iff.mp examined.complete
    · have none : p.txHshLst = [] := by
        refine eq_nil_iff_forall_not_mem.mpr fun h listed => ?_
        obtain ⟨tx, mem, _⟩ := examined.complete h listed
        exact absurd mem not_mem_nil
      rw [none]
      exact held_nil
  · intro held
    rcases id asked with ⟨left, n', found⟩ | ⟨rfl, n', failed⟩
    · obtain ⟨_, searched⟩ := ends.of_ok found
      exact ⟨txs, asked, accepted, searched.complete_iff.mpr held, searched.only, searched.once⟩
    · exact absurd held (ends.of_error failed rfl)

theorem isValid_ends (txs : List τ) (n : Node α τ) :
    Ends (isValid engine syncToBH chainID stateHash headerRoot txs) n
      (fun ok _ => ok = true → engine.app.isValid n.app chainID (syncToBH.bClaims.height + 1)
        stateHash txs = .ok true)
      fun _ _ => True := by
  simp only [isValid, ends_bind, ends_get, ends_lift, ends_ite]
  refine ⟨fun root _ => ⟨fun _ refused => absurd refused Bool.false_ne_true, fun _ => ?_⟩,
    fun _ _ => trivial⟩
  cases verdict : engine.app.isValid n.app chainID (syncToBH.bClaims.height + 1) stateHash txs with
  | error e => exact ends_ite.mpr ⟨fun _ refused => absurd refused Bool.false_ne_true, fun _ =>
      trivial⟩
  | ok valid =>
    cases valid with
    | false => trivial
    | true => exact ends_bind.mpr ((addTxs_ends _ txs n).mono (fun _ _ _ _ => rfl) fun _ _ _ =>
        trivial)

theorem Node.Cached.app {n n' : Node α τ} (cached : n.Cached n') : n'.app = n.app := by
  obtain ⟨_, rfl⟩ := cached
  rfl

private theorem proposalValid_ends (s : Session α τ) (p : Proposal) :
    Ends (proposalValid engine s.rs p) s
      (fun ok _ => ok = true → ∃ txs, Submits engine s.node p txs ∧ Accepts engine s p txs)
        fun _ _ => True := by
  simp only [proposalValid, onNode, ends_focus, ends_bind, ends_tryCatch, ends_pure]
  refine (ends_outcome.and (getTxs_ends s.node _ _)).mono ?_ fun _ _ _ refused =>
    absurd refused Bool.false_ne_true
  rintro ⟨txs, left⟩ n' ⟨found, cached, _⟩
  refine (isValid_ends txs n').mono ?_ ?_
  · intro ok _ accepted yes
    refine ⟨txs, .inl ⟨left, n', found⟩, ?_⟩
    rw [Accepts, ← cached.app]
    exact accepted yes
  · intro e _ _
    exact ends_ite.mpr ⟨fun _ refused => absurd refused Bool.false_ne_true, fun _ => trivial⟩

private theorem updateValidValue_ends (s : Session α τ) (p : Proposal) :
    Ends (updateValidValue engine p) s
      (fun _ _ => ∃ txs, Submits engine s.node p txs ∧ Accepts engine s p txs) fun _ _ => True := by
  have asks : ∀ (txs : List τ) (n' : Node α τ), s.node.Cached n' → Submits engine s.node p txs →
      Ends (do
        let ok ← onNode (isValid engine s.rs.ownState.syncToBH p.pClaims.bClaims.chainID
          p.pClaims.bClaims.stateRoot p.pClaims.bClaims.headerRoot txs)
        if !ok then throw (.invalid "proposal is invalid in update vv")
        setMostRecentValidValue p) ({ s with node := n' } : Session α τ)
        (fun _ _ => ∃ txs, Submits engine s.node p txs ∧ Accepts engine s p txs) fun _ _ =>
            True := by
    intro txs n' cached asked
    simp only [onNode, ends_bind, ends_focus]
    refine (isValid_ends txs n').mono ?_ fun _ _ _ => trivial
    intro ok _ accepted
    cases ok with
    | false => trivial
    | true =>
      refine ⟨txs, asked, ?_⟩
      rw [Accepts, ← cached.app]
      exact accepted rfl
  have searched : Ends (tryCatch (getTxs engine p.pClaims.bClaims.height p.txHshLst)
      fun e => if e = .missingTransactions then pure ([], []) else throw e) s.node
      (fun result n' => s.node.Cached n' ∧ Submits engine s.node p result.1) fun _ _ => True := by
    have keeps : Ends (getTxs engine p.pClaims.bClaims.height p.txHshLst) s.node _ _ :=
      getTxs_keeps s.node
    refine ends_tryCatch.mpr ((ends_outcome.and keeps).mono ?_ ?_)
    · rintro ⟨txs, left⟩ n' ⟨found, cached⟩
      exact ⟨cached, .inl ⟨left, n', found⟩⟩
    · rintro e n' ⟨failed, cached⟩
      refine ends_ite.mpr ⟨?_, fun _ => trivial⟩
      rintro rfl
      exact ⟨cached, .inr ⟨rfl, n', failed⟩⟩
  refine ends_bind.mpr (ends_bind.mpr ?_)
  refine ends_bind.mpr (ends_focus.mpr (searched.mono ?_ fun _ _ _ => trivial))
  rintro ⟨txs, left⟩ n' ⟨cached, asked⟩
  exact asks txs n' cached asked

structure Undecided (s : Session α τ) (p : Proposal) : Prop where
  validator : s.rs.isCurrentValidator = true
  alive : s.rs.rCert.rClaims.round ≠ DEADBLOCKROUND
  unlocked : s.rs.lockedValueCurrent = false
  unvalued : s.rs.validValueCurrent = false
  proposed : s.rs.getCurrentProposal = some p

theorem Undecided.doPendingPreVoteStep_eq (undecided : Undecided s p) (now : ℕ) :
    doPendingPreVoteStep engine now s = (do
      if ← proposalValid engine s.rs p then castPreVote engine now p else castPreVoteNil engine now)
        s := by
  show (ite _ _ _ : Step α τ Unit) s = _
  rw [if_pos undecided.validator]
  show (ite _ _ _ : Step α τ Unit) s = _
  rw [if_neg undecided.alive, undecided.proposed]
  rw [undecided.unlocked, undecided.unvalued]
  rfl

/-- A validator that has nothing to stick to votes for a proposal if it takes the proposal for
valid, and then, like when it makes a proposal its valid value, the application has accepted the
transactions of the proposal, all of them, if and only if the node has them all. -/
theorem decisions_examined_iff (engine : Engine α τ) (now : ℕ) (s : Session α τ) (p : Proposal) :
    (Undecided s p →
      doPendingPreVoteStep engine now s = (do
        if ← proposalValid engine s.rs p then castPreVote engine now p else
          castPreVoteNil engine now) s) ∧
    ∀ t, proposalValid engine s.rs p s = .ok true t ∨ updateValidValue engine p s = .ok () t →
      ((∃ txs, Examined engine s p txs) ↔
        Held engine s.node p.pClaims.bClaims.height p.txHshLst) := by
  refine ⟨fun undecided => undecided.doPendingPreVoteStep_eq now, fun t decided => ?_⟩
  have asked : ∃ txs, Submits engine s.node p txs ∧ Accepts engine s p txs := by
    rcases decided with valid | updated
    · have ends : Ends (proposalValid engine s.rs p) s _ _ := proposalValid_ends s p
      exact ends.of_ok valid rfl
    · have ends : Ends (updateValidValue engine p) s _ _ := updateValidValue_ends s p
      exact ends.of_ok updated
  obtain ⟨txs, asked, accepted⟩ := asked
  exact examined_iff asked accepted

end Decisions

def sampleLoaded (txHshLst : List Hash) : Proposal :=
  ⟨⟨⟨1, 2, txHshLst.length, 0, 0, 7, 0⟩, sampleRCert 2 1⟩, 3, txHshLst⟩

def sampleOffered (h : Hash) (txc : Hash → Option (ℕ × Unit)) : List (Event Unit Unit) := [
  .addValidatorSet 0 sampleSet,
  sampleUpdate 0,
  .store ⟨.vote (.proposal (sampleLoaded [h])), ⟨none, some 3, 0, 0, []⟩⟩,
  .outside () txc]

def sampleUndecided (h : Hash) (txc : Hash → Option (ℕ × Unit)) : Option (Session Unit Unit) :=
  (sampleNode (sampleOffered h txc)).db.loadLocalState.toOption.map fun rs =>
    ⟨sampleNode (sampleOffered h txc), rs⟩

def takenForValid (s : Session Unit Unit) (p : Proposal) : Bool :=
  match proposalValid sampleEngine s.rs p s with
  | .ok valid _ => valid
  | .error .. => false

theorem takenForValid_iff :
    takenForValid s p = true ↔ ∃ t, proposalValid sampleEngine s.rs p s = .ok true t := by
  unfold takenForValid
  cases proposalValid sampleEngine s.rs p s with
  | ok valid t => cases valid <;> simp
  | error e t => simp

/-- The only transaction there is has the hash zero. -/
theorem decisions_examined_downloaded : ∃ s t, sampleUndecided 0 (fun _ => some (2, ())) = some s ∧
    proposalValid sampleEngine s.rs (sampleLoaded [0]) s = .ok true t ∧
    ∃ txs, Examined sampleEngine s (sampleLoaded [0]) txs := by
  have valid : (sampleUndecided 0 fun _ => some (2, ())).map (fun s =>
      takenForValid s (sampleLoaded [0])) = some true := by
    decide
  obtain ⟨s, found, taken⟩ := Option.map_eq_some_iff.mp valid
  obtain ⟨t, taken⟩ := takenForValid_iff.mp taken
  have all : (sampleUndecided 0 fun _ => some (2, ())).map (fun s : Session Unit Unit => decide
      (∀ h ∈ unpooled sampleEngine s.node 2 [0],
        h ∈ hashesOf sampleEngine.app (downloadedTxs sampleEngine s.node 2 [0]))) = some true := by
    decide
  rw [found] at all
  refine ⟨s, t, found, taken,
    ((decisions_examined_iff sampleEngine 0 s (sampleLoaded [0])).2 t (.inl taken)).mpr ?_⟩
  exact ⟨fun _ _ => ⟨0, rfl⟩, of_decide_eq_true (Option.some.inj all)⟩

private theorem sampleOffered_possible (h : Hash) (txc : Hash → Option (ℕ × Unit))
    (valid : (sampleNode ((sampleOffered h txc).take 2)).db.preValidate sampleEngine.crypto
      (.vote (.proposal (sampleLoaded [h]))) = .ok ⟨none, some 3, 0, 0, []⟩) :
    ∀ event ∈ sampleOffered h txc, event.Possible sampleEngine := by
  simp only [sampleOffered, forall_mem_cons]
  exact ⟨trivial, trivial, ⟨_, valid⟩, trivial, nofun⟩

/-- Nobody has the transaction with the hash `9`, and the node votes for the block. -/
theorem vote_without_transaction : ∃ n rs t,
    Run sampleEngine Node.Fresh (fun _ _ => True) n ∧ n.db.loadLocalState = .ok rs ∧
    Undecided ⟨n, rs⟩ (sampleLoaded [9]) ∧ proposalValid sampleEngine rs (sampleLoaded [9]) ⟨n,
      rs⟩ = .ok true t ∧
    (∀ txs, ¬ Examined sampleEngine ⟨n, rs⟩ (sampleLoaded [9]) txs) ∧
    (n.after sampleEngine (sampleUpdate (10 ^ 9))).signed =
      [.preVote (sampleLoaded [9]).pClaims] := by
  have possible := sampleOffered_possible 9 (fun _ => none) (by decide)
  have valid : (sampleUndecided 9 fun _ => none).map (fun s => takenForValid s (sampleLoaded [9])) =
      some true := by
    decide
  have undecided : (sampleUndecided 9 fun _ => none).map (fun s =>
      (s.rs.isCurrentValidator, s.rs.lockedValueCurrent,
      s.rs.validValueCurrent, decide (s.rs.rCert.rClaims.round = 1),
      decide (s.rs.getCurrentProposal = some (sampleLoaded [9])))) = some (true, false, false, true,
          true) := by
    decide
  obtain ⟨_, found, taken⟩ := Option.map_eq_some_iff.mp valid
  obtain ⟨rs, loaded, rfl⟩ := Option.map_eq_some_iff.mp found
  obtain ⟨t, taken⟩ := takenForValid_iff.mp taken
  rw [found] at undecided
  simp only [Option.map_some, Option.some.injEq, Prod.mk.injEq, decide_eq_true_eq] at undecided
  obtain ⟨validator, unlocked, unvalued, round, proposed⟩ := undecided
  refine ⟨_, rs, t, sampleNode_run possible, ?_, ⟨validator, ?_, unlocked, unvalued, proposed⟩,
    taken, ?_, by decide⟩
  · cases load : (sampleNode (sampleOffered 9 fun _ => none)).db.loadLocalState with
    | error e => simp [load, Except.toOption] at loaded
    | ok rs' =>
      simp only [load, Except.toOption, Option.some.injEq] at loaded
      rw [loaded]
  · rw [round]
    decide
  · intro txs examined
    obtain ⟨tx, _, hashed⟩ := examined.complete 9 (mem_singleton_self _)
    cases hashed

end AliceNet.Consensus
