import Mathlib.Tactic.Common

/-!
# Programs that can get stuck

A program on a state that has no result where it gets stuck. `Runs` is the weakest precondition for getting through,
and the rules compute it along the program.
-/

namespace KafGo.Lib

variable {σ α β : Type}

/-- From the state the program gets through, to a value and a state with the postcondition. -/
def Runs (prog : StateT σ Option α) (post : α → σ → Prop) (s : σ) : Prop :=
  ∃ a s', prog.run s = some (a, s') ∧ post a s'

section Rules

variable {prog : StateT σ Option α} {post : α → σ → Prop} {s s' : σ} {a : α}

theorem runs_some (ran : prog.run s = some (a, s')) : Runs prog post s ↔ post a s' := by
  constructor
  · rintro ⟨b, t, other, holds⟩
    rw [ran] at other
    obtain ⟨rfl, rfl⟩ := Prod.mk.inj (Option.some.inj other)
    exact holds
  · intro holds
    exact ⟨a, s', ran, holds⟩

theorem runs_none (stuck : prog.run s = none) : ¬ Runs prog post s := by
  rintro ⟨b, t, ran, _⟩
  rw [stuck] at ran
  cases ran

theorem runs_pure : Runs (pure a) post s ↔ post a s := runs_some rfl

theorem runs_bind {next : α → StateT σ Option β} {post : β → σ → Prop} :
    Runs (prog >>= next) post s ↔ Runs prog (fun a => Runs (next a) post) s := by
  unfold Runs
  rw [StateT.run_bind]
  cases ran : prog.run s with
  | none =>
    constructor
    · rintro ⟨_, _, other, _⟩
      cases other
    · rintro ⟨_, _, other, _⟩
      cases other
  | some result =>
    constructor
    · intro later
      exact ⟨result.1, result.2, rfl, later⟩
    · rintro ⟨a, t, same, later⟩
      obtain rfl := Option.some.inj same
      exact later

theorem runs_mono {post' : α → σ → Prop} (runs : Runs prog post s) (weaker : ∀ a s', post a s' → post' a s') :
    Runs prog post' s := by
  obtain ⟨a, s', ran, holds⟩ := runs
  exact ⟨a, s', ran, weaker a s' holds⟩

theorem runs_congr {post' : α → σ → Prop} (same : ∀ a s', post a s' ↔ post' a s') :
    Runs prog post s ↔ Runs prog post' s := by
  obtain rfl : post = post' := funext fun a => funext fun s' => propext (same a s')
  rfl

end Rules

end KafGo.Lib
