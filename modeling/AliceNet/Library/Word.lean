import AliceNet.Library.Outcome

/-! Unsigned machine words with checked arithmetic: an operation that leaves the range stops. -/

namespace Word

universe u

variable {ε : Type u}

def add (width : ℕ) (overflow : ε) (a b : ℕ) : Except ε ℕ :=
  if a + b < 2 ^ width then .ok (a + b) else .error overflow

def sub (underflow : ε) (a b : ℕ) : Except ε ℕ :=
  if b ≤ a then .ok (a - b) else .error underflow

def mul (width : ℕ) (overflow : ε) (a b : ℕ) : Except ε ℕ :=
  if a * b < 2 ^ width then .ok (a * b) else .error overflow

@[simp] theorem add_ok_iff :
    add width overflow a b = .ok result ↔ a + b < 2 ^ width ∧ a + b = result := by
  unfold add
  split <;> simp_all

@[simp] theorem sub_ok_iff : sub underflow a b = .ok result ↔ b ≤ a ∧ a - b = result := by
  unfold sub
  split <;> simp_all

@[simp] theorem mul_ok_iff :
    mul width overflow a b = .ok result ↔ a * b < 2 ^ width ∧ a * b = result := by
  unfold mul
  split <;> simp_all

end Word
