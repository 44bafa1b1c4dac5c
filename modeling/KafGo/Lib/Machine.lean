import Mathlib.Logic.Relation
import Mathlib.Tactic.Common

/-!
# Machines

A state that changes by one action at a time. `Reached` collects the states of all runs whose actions are
allowed in the state they start from.
-/

namespace KafGo.Lib

variable {σ α : Type}

/-- Values for the elements of a list, one each and in order, along the states in between. -/
inductive Along {β : Type} (good : σ → α → β → σ → Prop) : σ → List α → List β → σ → Prop where
  | nil (s : σ) : Along good s [] [] s
  | cons {s s' s'' : σ} {a : α} {b : β} {as : List α} {bs : List β} (head : good s a b s')
      (tail : Along good s' as bs s'') : Along good s (a :: as) (b :: bs) s''

theorem Along.length_eq {β : Type} {good : σ → α → β → σ → Prop} {s s' : σ} {as : List α} {bs : List β}
    (along : Along good s as bs s') : bs.length = as.length := by
  induction along with
  | nil => rfl
  | cons _ _ ih => rw [List.length_cons, List.length_cons, ih]

structure Machine (σ α : Type) where
  start : σ → Prop
  step : α → σ → Option σ

namespace Machine

inductive Reached (m : Machine σ α) (allowed : σ → α → Prop) : σ → Prop where
  | start {s : σ} (initial : m.start s) : Reached m allowed s
  | act {s s' : σ} {a : α} (before : Reached m allowed s) (permitted : allowed s a) (moves : m.step a s = some s') :
      Reached m allowed s'

abbrev Run (m : Machine σ α) : σ → Prop := m.Reached fun _ _ => True

/-- A run leads from the first state to the second one. -/
abbrev Leads (m : Machine σ α) : σ → σ → Prop := Relation.ReflTransGen fun s s' => ∃ a, m.step a s = some s'

def exec (m : Machine σ α) (check : σ → α → Bool) : List α → σ → Option σ
  | [], s => some s
  | a :: rest, s => if check s a then (m.step a s).bind (m.exec check rest) else none

variable {m : Machine σ α} {allowed : σ → α → Prop}

theorem reached_invariant (inv : σ → Prop) (initial : ∀ s, m.start s → inv s)
    (kept : ∀ s a s', inv s → allowed s a → m.step a s = some s' → inv s') {s : σ} (reached : m.Reached allowed s) :
    inv s := by
  induction reached with
  | start first => exact initial _ first
  | act _ permitted moves ih => exact kept _ _ _ ih permitted moves

theorem Reached.mono {weaker : σ → α → Prop} (allows : ∀ s a, allowed s a → weaker s a) {s : σ}
    (reached : m.Reached allowed s) : m.Reached weaker s := by
  induction reached with
  | start first => exact .start first
  | act _ permitted moves ih => exact .act ih (allows _ _ permitted) moves

theorem exec_reached {check : σ → α → Bool} (sound : ∀ s a, check s a = true → allowed s a) (actions : List α) :
    ∀ {s s' : σ}, m.Reached allowed s → m.exec check actions s = some s' → m.Reached allowed s' := by
  induction actions with
  | nil =>
    intro s s' reached ran
    obtain rfl := Option.some.inj ran
    exact reached
  | cons a rest ih =>
    intro s s' reached ran
    simp only [exec] at ran
    split at ran
    · rename_i checked
      obtain ⟨s₁, moves, ran⟩ := Option.bind_eq_some_iff.mp ran
      exact ih (.act reached (sound s a checked) moves) ran
    · cases ran

theorem exec_reaches (m : Machine σ α) (allowed : σ → α → Prop) (check : σ → α → Bool)
    (sound : ∀ s a, check s a = true → allowed s a) {s : σ} (actions : List α) (p : σ → Bool) (initial : m.start s)
    (ends : (m.exec check actions s).map p = some true) : ∃ s', m.Reached allowed s' ∧ p s' = true := by
  obtain ⟨s', ran, holds⟩ := Option.map_eq_some_iff.mp ends
  exact ⟨s', exec_reached sound actions (.start initial) ran, holds⟩

end Machine

end KafGo.Lib
