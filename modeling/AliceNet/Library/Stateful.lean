import Mathlib

/-! Code that changes a state and may stop with an error. What it changed before the error stays
changed. -/

namespace Stateful

variable {ε σ ρ α β : Type}

def Ends (step : EStateM ε σ α) (s : σ) (post : α → σ → Prop) (fail : ε → σ → Prop) : Prop :=
  match step s with
  | .ok value t => post value t
  | .error failure t => fail failure t

section Rules

variable {s : σ} {post : α → σ → Prop} {fail : ε → σ → Prop}

@[simp] theorem ends_pure : Ends (pure value : EStateM ε σ α) s post fail ↔ post value s := Iff.rfl

@[simp] theorem ends_throw {failure : ε} :
    Ends (throw failure : EStateM ε σ α) s post fail ↔ fail failure s := Iff.rfl

@[simp] theorem ends_get {post : σ → σ → Prop} : Ends (get : EStateM ε σ σ) s post fail ↔
    post s s := Iff.rfl

@[simp] theorem ends_modify {post : Unit → σ → Prop} :
    Ends (modify f : EStateM ε σ Unit) s post fail ↔ post () (f s) := Iff.rfl

@[simp] theorem ends_bind :
    Ends (first >>= next) s post fail ↔
      Ends first s (fun value t => Ends (next value) t post fail) fail := by
  show Ends (EStateM.bind first next) s post fail ↔ _
  unfold Ends EStateM.bind
  cases first s <;> rfl

@[simp] theorem ends_map :
    Ends (f <$> first) s post fail ↔ Ends first s (fun value t => post (f value) t) fail := by
  show Ends (EStateM.map f first) s post fail ↔ _
  unfold Ends EStateM.map
  cases first s <;> rfl

@[simp] theorem ends_discard {first : EStateM ε σ β} {post : PUnit → σ → Prop} :
    Ends (discard first) s post fail ↔ Ends first s (fun _ t => post ⟨⟩ t) fail := by
  show Ends (EStateM.map (Function.const β PUnit.unit) first) s post fail ↔ _
  unfold Ends EStateM.map
  cases first s <;> rfl

@[simp] theorem ends_tryCatch :
    Ends (tryCatch first handle) s post fail ↔
      Ends first s post (fun failure t => Ends (handle failure) t post fail) := by
  show Ends (EStateM.tryCatch first handle) s post fail ↔ _
  unfold Ends EStateM.tryCatch
  cases first s <;> rfl

@[simp] theorem ends_ite [Decidable condition] :
    Ends (if condition then yes else no) s post fail ↔
      (condition → Ends yes s post fail) ∧ (¬condition → Ends no s post fail) := by
  split <;> simp_all

theorem Ends.mono (ends : Ends step s post fail) (onPost : ∀ value t, post value t → post' value t)
    (onFail : ∀ failure t, fail failure t → fail' failure t) : Ends step s post' fail' := by
  unfold Ends at ends ⊢
  cases outcome : step s with
  | ok value t =>
    rw [outcome] at ends
    exact onPost value t ends
  | error failure t =>
    rw [outcome] at ends
    exact onFail failure t ends

theorem Ends.and (ends : Ends step s post fail) (ends' : Ends step s post' fail') :
    Ends step s (fun value t => post value t ∧ post' value t) (fun failure t => fail failure t ∧
      fail' failure t) := by
  unfold Ends at ends ends' ⊢
  split <;> simp_all

theorem Ends.of_ok (ends : Ends step s post fail) (outcome : step s = .ok value t) :
    post value t := by
  unfold Ends at ends
  rwa [outcome] at ends

theorem Ends.of_error {failure : ε} (ends : Ends step s post fail)
    (outcome : step s = .error failure t) : fail failure t := by
  unfold Ends at ends
  rwa [outcome] at ends

theorem ends_outcome :
    Ends step s (fun value t => step s = .ok value t) fun failure t =>
      step s = .error failure t := by
  unfold Ends
  cases step s <;> rfl

end Rules

def lift (result : Except ε α) : EStateM ε σ α := fun s =>
  match result with
  | .ok value => .ok value s
  | .error failure => .error failure s

@[simp] theorem ends_lift :
    Ends (lift result) s post fail ↔
      (∀ value, result = .ok value → post value s) ∧ (∀ failure, result = .error failure →
        fail failure s) := by
  cases result <;> simp [Ends, lift]

def focus (part : σ → ρ) (place : ρ → σ → σ) (step : EStateM ε ρ α) : EStateM ε σ α := fun s =>
  match step (part s) with
  | .ok value r => .ok value (place r s)
  | .error failure r => .error failure (place r s)

@[simp] theorem ends_focus :
    Ends (focus part place step) s post fail ↔
      Ends step (part s) (fun value r => post value (place r s)) (fun failure r =>
        fail failure (place r s)) := by
  unfold Ends focus
  cases step (part s) <;> rfl

def tolerate (accepts : ε → Bool) (step : EStateM ε σ Unit) : EStateM ε σ Bool :=
  tryCatch (do step; pure true) fun failure => if accepts failure then pure false else throw failure

def Keeps (rel : σ → σ → Prop) (step : EStateM ε σ α) : Prop :=
  ∀ s, Ends step s (fun _ t => rel s t) (fun _ t => rel s t)

namespace Keeps

variable {rel : σ → σ → Prop}

theorem mono (keeps : Keeps rel step) (weaker : ∀ {s t}, rel s t → rel' s t) : Keeps rel' step :=
    fun s =>
  (keeps s).mono (fun _ _ kept => weaker kept) (fun _ _ kept => weaker kept)

theorem total (step : EStateM ε σ α) : Keeps (fun _ _ => True) step := by
  intro s
  unfold Ends
  split <;> trivial

theorem of_modify (related : ∀ s, rel s (f s)) : Keeps (ε := ε) rel (modify f) := related

theorem map (head : Keeps rel first) : Keeps rel (f <$> first) := by
  intro s
  rw [ends_map]
  exact head s

theorem ite [Decidable condition] (onYes : condition → Keeps rel yes)
    (onNo : ¬condition → Keeps rel no) : Keeps rel (if condition then yes else no) := by
  intro s
  rw [ends_ite]
  exact ⟨fun holds => onYes holds s, fun fails => onNo fails s⟩

theorem focus {place : ρ → σ → σ} {inner : ρ → ρ → Prop}
    (keeps : Keeps inner step) (placed : ∀ s r, inner (part s) r → rel s (place r s)) :
    Keeps rel (Stateful.focus part place step) := by
  intro s
  rw [ends_focus]
  exact (keeps (part s)).mono (fun _ r kept => placed s r kept) (fun _ r kept => placed s r kept)

section Reflexive

variable [Std.Refl rel]

theorem of_pure (value : α) : Keeps (ε := ε) rel (pure value : EStateM ε σ α) :=
    fun s => refl_of rel s

theorem of_throw (failure : ε) : Keeps rel (throw failure : EStateM ε σ α) := fun s => refl_of rel s

theorem of_get : Keeps (ε := ε) rel (get : EStateM ε σ σ) := fun s => refl_of rel s

theorem of_lift : Keeps rel (lift result : EStateM ε σ α) := by
  intro s
  rw [ends_lift]
  exact ⟨fun _ _ => refl_of rel s, fun _ _ => refl_of rel s⟩

end Reflexive

section Transitive

variable [IsTrans σ rel]

theorem bind (head : Keeps rel first) (tail : ∀ value, Keeps rel (next value)) :
    Keeps rel (first >>= next) := by
  intro s
  rw [ends_bind]
  refine (head s).mono (fun value t before => ?_) (fun _ _ failed => failed)
  exact (tail value t).mono (fun _ _ after => trans_of rel before after) (fun _ _ after =>
    trans_of rel before after)

theorem tryCatch {handle : ε → EStateM ε σ α} (head : Keeps rel first)
    (tail : ∀ failure, Keeps rel (handle failure)) :
    Keeps rel (MonadExcept.tryCatch first handle) := by
  intro s
  rw [ends_tryCatch]
  refine (head s).mono (fun _ _ kept => kept) (fun failure t before => ?_)
  exact (tail failure t).mono (fun _ _ after => trans_of rel before after) (fun _ _ after =>
    trans_of rel before after)

theorem tolerate [Std.Refl rel] {step : EStateM ε σ Unit} (keeps : Keeps rel step) :
    Keeps rel (Stateful.tolerate accepts step) :=
  (keeps.bind fun _ => of_pure true).tryCatch fun failure =>
    ite (fun _ => of_pure false) (fun _ => of_throw failure)

end Transitive

theorem bind_lift {next : β → EStateM ε σ α} [Std.Refl rel]
    (tail : ∀ value, result = .ok value → Keeps rel (next value)) :
    Keeps rel (lift result >>= next) := by
  intro s
  rw [ends_bind, ends_lift]
  exact ⟨fun value outcome => tail value outcome s, fun _ _ => refl_of rel s⟩

end Keeps

namespace Returns

variable {s : σ} {post : α → σ → Prop}

end Returns

end Stateful
