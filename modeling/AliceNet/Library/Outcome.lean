import Mathlib

/-! Peeling apart computations that may stop with an error. -/

namespace Outcome

open List

universe u v

variable {ε : Type u} {α β : Type v}

theorem bind_ok_iff {next : α → Except ε β} :
    (first >>= next) = .ok result ↔ ∃ middle, first = .ok middle ∧ next middle = .ok result := by
  cases first with
  | error failure => simp [bind, Except.bind]
  | ok middle => simp [bind, Except.bind]

theorem bind_of_ok {first : Except ε α} (ran : first = .ok middle) (next : α → Except ε β) :
    (first >>= next) = next middle := by
  rw [ran]
  rfl

theorem map_ok_iff {first : Except ε α} {result : β} :
    (f <$> first) = .ok result ↔ ∃ middle, first = .ok middle ∧ f middle = result := by
  cases first with
  | error failure => simp [Functor.map, Except.map]
  | ok middle => simp [Functor.map, Except.map]

theorem mapError_ok_iff {first : Except ε α} {result : α} :
    first.mapError f = .ok result ↔ first = .ok result := by
  cases first with
  | error failure => simp [Except.mapError]
  | ok value => simp [Except.mapError]

theorem pure_ok_iff {value result : α} :
    (pure value : Except ε α) = .ok result ↔ value = result := by
  simp [pure, Except.pure]

/-- A check that stops with `failure` unless `condition` holds. -/
def require (condition : Prop) [Decidable condition] (failure : ε) : Except ε Unit :=
  if condition then .ok () else .error failure

@[simp] theorem require_ok_iff [Decidable condition] {failure : ε} :
    require condition failure = .ok result ↔ condition := by
  unfold require
  split <;> simp_all

theorem ok_iff :
    (∀ {ε α β : Type} {first : Except ε α} {next : α → Except ε β} {result : β},
      (first >>= next) = .ok result ↔ ∃ middle, first = .ok middle ∧ next middle = .ok result) ∧
    (∀ {ε α : Type} {value result : α}, (pure value : Except ε α) = .ok result ↔ value = result) ∧
    ∀ {ε : Type} {condition : Prop} [Decidable condition] {failure : ε} {result : Unit},
      require condition failure = .ok result ↔ condition :=
  ⟨bind_ok_iff, pure_ok_iff, require_ok_iff⟩

theorem ok_iff' :
    (∀ {ε α β : Type} {first : Except ε α} {next : α → Except ε β} {result : β},
      (first >>= next) = .ok result ↔ ∃ middle, first = .ok middle ∧ next middle = .ok result) ∧
    (∀ {ε α : Type} {value result : α}, (pure value : Except ε α) = .ok result ↔ value = result) ∧
    (∀ {ε : Type} {condition : Prop} [Decidable condition] {failure : ε} {result : Unit},
      require condition failure = .ok result ↔ condition) ∧
    (∀ {ε α β : Type} {f : α → β} {first : Except ε α} {result : β},
      (f <$> first) = .ok result ↔ ∃ middle, first = .ok middle ∧ f middle = result) ∧
    (∀ {ε ε' α : Type} {f : ε → ε'} {first : Except ε α} {result : α},
      first.mapError f = .ok result ↔ first = .ok result) ∧
    (∀ {p : Prop}, (∃ _ : Unit, p) ↔ p) ∧
    (∀ {α β : Type} {p : α × β → Prop}, (∃ pair, p pair) ↔ ∃ a b, p (a, b)) ∧
    ∀ {α β : Type} {a a' : α} {b b' : β}, (a, b) = (a', b') ↔ a = a' ∧ b = b' :=
  ⟨bind_ok_iff, pure_ok_iff, require_ok_iff, map_ok_iff, mapError_ok_iff, exists_const _,
    Prod.exists, Prod.mk_inj⟩

theorem require_error_iff [Decidable condition] {failure e : ε} :
    require condition failure = .error e ↔ ¬condition ∧ failure = e := by
  unfold require
  split <;> simp_all

theorem require_of {condition : Prop} [Decidable condition] (holds : condition) (failure : ε) :
    require condition failure = .ok () :=
  require_ok_iff.mpr holds

theorem of_require {α : Type} [Decidable condition] {failure : ε} {next : Unit → Except ε α}
    {result : α} (ran : (require condition failure >>= next) = .ok result) : condition :=
  require_ok_iff.mp (bind_ok_iff.mp ran).choose_spec.1

section

universe w

variable {ι : Type w}

theorem forM_ok_iff {items : List ι} {check : ι → Except ε PUnit} :
    items.forM check = .ok ⟨⟩ ↔ ∀ item ∈ items, check item = .ok ⟨⟩ := by
  induction items with
  | nil => simp [List.forM, pure_ok_iff]
  | cons item rest ih =>
    show (check item >>= fun _ => rest.forM check) = _ ↔ _
    rw [bind_ok_iff, forall_mem_cons, ← ih]
    constructor
    · rintro ⟨⟨⟩, first, others⟩
      exact ⟨first, others⟩
    · rintro ⟨first, others⟩
      exact ⟨⟨⟩, first, others⟩

section

variable {items : List ι} {step : ι → Except ε α}

theorem mapM_of_ok (spec : ∀ item ∈ items, step item = .ok (f item)) :
    items.mapM step = .ok (items.map f) := by
  induction items with
  | nil => rfl
  | cons item rest ih =>
    rw [forall_mem_cons] at spec
    rw [mapM_cons, spec.1, ih spec.2]
    rfl

theorem mapM_ok_eq_map {f : ι → α} (spec : ∀ item result, step item = .ok result → result = f item)
    (ran : items.mapM step = .ok results) : results = items.map f := by
  induction items generalizing results with
  | nil =>
    rw [mapM_nil, pure_ok_iff] at ran
    exact ran.symm
  | cons item rest ih =>
    simp only [mapM_cons, bind_ok_iff, pure_ok_iff] at ran
    obtain ⟨result, first, others, tail, rfl⟩ := ran
    rw [map_cons, spec item result first, ih tail]

theorem mapM_ok_iff_forall₂ {results : List α} :
    items.mapM step = .ok results ↔
      Forall₂ (fun item result => step item = .ok result) items results := by
  induction items generalizing results with
  | nil =>
    rw [mapM_nil, pure_ok_iff, forall₂_nil_left_iff, eq_comm]
  | cons item rest ih =>
    simp only [mapM_cons, bind_ok_iff, pure_ok_iff, forall₂_cons_left_iff, ih]
    constructor
    · rintro ⟨result, first, others, tail, rfl⟩
      exact ⟨result, others, first, tail, rfl⟩
    · rintro ⟨result, others, first, tail, rfl⟩
      exact ⟨result, first, others, tail, rfl⟩

theorem exists_mapM_ok_iff :
    (∃ results, items.mapM step = .ok results) ↔ ∀ item ∈ items, ∃ result,
      step item = .ok result := by
  induction items with
  | nil => simp [pure, Except.pure]
  | cons item rest ih =>
    rw [forall_mem_cons, ← ih]
    simp only [mapM_cons, bind_ok_iff, pure_ok_iff]
    constructor
    · rintro ⟨_, result, first, others, tail, _⟩
      exact ⟨⟨result, first⟩, others, tail⟩
    · rintro ⟨⟨result, first⟩, others, tail⟩
      exact ⟨_, result, first, others, tail, rfl⟩

end

theorem foldlM_concat_ok {step : σ → ι → Except ε σ} {items : List ι}
    (run : items.foldlM step s = .ok t) (last : step t item = .ok u) :
    (items ++ [item]).foldlM step s = .ok u := by
  simp only [foldlM_append, foldlM_cons, bind_ok_iff]
  exact ⟨t, run, u, last, rfl⟩

theorem forM_ok_perm {items items' : List ι} {check : ι → Except ε PUnit} (perm : items.Perm items')
    (ran : items.forM check = .ok ⟨⟩) : items'.forM check = .ok ⟨⟩ := by
  rw [forM_ok_iff] at ran ⊢
  intro item mem
  exact ran item (perm.mem_iff.mpr mem)

theorem foldlM_ok_perm (step : σ → ι → Except ε σ) {s s' : σ} (apart : ι → ι → Prop)
    (symmetric : ∀ {a b}, apart a b → apart b a)
    (commute : ∀ a b, apart a b → ∀ s s', (step s a >>= fun t => step t b) = .ok s' →
      (step s b >>= fun t => step t a) = .ok s')
    {items items' : List ι} (perm : items.Perm items') (pairwise : items.Pairwise apart)
    (ran : items.foldlM step s = .ok s') : items'.foldlM step s = .ok s' := by
  induction perm generalizing s with
  | nil => exact ran
  | cons item _ ih =>
    rw [pairwise_cons] at pairwise
    simp only [foldlM_cons, bind_ok_iff] at ran ⊢
    obtain ⟨t, first, rest⟩ := ran
    exact ⟨t, first, ih pairwise.2 rest⟩
  | swap a b rest =>
    rw [pairwise_cons] at pairwise
    simp only [foldlM_cons, bind_ok_iff] at ran
    obtain ⟨t, first, t', second, rest⟩ := ran
    have swapped :=
      commute b a (pairwise.1 a mem_cons_self) s t' (bind_ok_iff.mpr ⟨t, first, second⟩)
    obtain ⟨t, first, second⟩ := bind_ok_iff.mp swapped
    simp only [foldlM_cons, bind_ok_iff]
    exact ⟨t, first, t', second, rest⟩
  | trans perm _ ih ih' => exact ih' (perm.pairwise pairwise symmetric) (ih pairwise ran)

end

end Outcome
