import Mathlib

/-! Sets of coins by their names. -/

universe u v

abbrev CoinSet (κ : Type u) (γ : Type v) := Finmap fun _ : κ => γ

namespace CoinSet

variable {κ : Type u} {γ : Type v} [DecidableEq κ]

def spend (coins : CoinSet κ γ) (names : List κ) : CoinSet κ γ :=
  names.foldl (fun coins name => coins.erase name) coins

def create (coins : CoinSet κ γ) (fresh : List (κ × γ)) : CoinSet κ γ :=
  fresh.foldl (fun coins coin => coins.insert coin.1 coin.2) coins

theorem mem_spend {coins : CoinSet κ γ} :
    name ∈ coins.spend names ↔ name ∈ coins ∧ name ∉ names := by
  induction names generalizing coins with
  | nil => simp [spend]
  | cons first rest ih =>
    show name ∈ spend (coins.erase first) rest ↔ _
    rw [ih, Finmap.mem_erase, List.mem_cons]
    tauto

theorem mem_create {coins : CoinSet κ γ} :
    name ∈ coins.create fresh ↔ name ∈ coins ∨ name ∈ fresh.map Prod.fst := by
  induction fresh generalizing coins with
  | nil => simp [create]
  | cons first rest ih =>
    show name ∈ create (coins.insert first.1 first.2) rest ↔ _
    rw [ih, Finmap.mem_insert, List.map_cons, List.mem_cons]
    tauto

end CoinSet
