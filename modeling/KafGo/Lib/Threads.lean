import Mathlib.Tactic.Common

/-!
# Goroutines over shared state

Any number of tasks take atomic steps on a shared state, in any order and at any time, and new tasks
may start at any time. A step may depend on a choice of the environment (a clock, a timeout, a failing
disk). `Reachable` collects the configurations of all interleavings whose steps are allowed; its rules
reduce what holds in all of them to what one step does.
-/

namespace KafGo.Lib

variable {σ τ ε : Type}

structure Config (σ τ : Type) where
  shared : σ
  tasks : List τ

structure System (σ τ ε : Type) where
  start : σ → Prop
  spawn : τ → Prop
  step : ε → σ → τ → Option (σ × τ)

/-- A restriction on the steps of a run, on the configuration before the step. -/
abbrev Condition (σ τ ε : Type) := Config σ τ → Nat → ε → Prop

inductive Reachable (sys : System σ τ ε) (allowed : Condition σ τ ε) : Config σ τ → Prop where
  | start {s : σ} (initial : sys.start s) : Reachable sys allowed ⟨s, []⟩
  | spawn {c : Config σ τ} {t : τ} (before : Reachable sys allowed c) (new : sys.spawn t) :
      Reachable sys allowed ⟨c.shared, c.tasks ++ [t]⟩
  | act {c : Config σ τ} {i : Nat} {t t' : τ} {s' : σ} (env : ε) (before : Reachable sys allowed c)
      (at_i : c.tasks[i]? = some t) (permitted : allowed c i env)
      (moves : sys.step env c.shared t = some (s', t')) : Reachable sys allowed ⟨s', c.tasks.set i t'⟩

def free (σ τ ε : Type) : Condition σ τ ε := fun _ _ _ => True

/-! ### Running a schedule -/

inductive Event (τ ε : Type) where
  | spawn (t : τ)
  | act (i : Nat) (env : ε)

def System.exec (sys : System σ τ ε) (check : Config σ τ → Nat → ε → Bool) (c : Config σ τ) :
    List (Event τ ε) → Option (Config σ τ)
  | [] => some c
  | .spawn t :: rest => sys.exec check ⟨c.shared, c.tasks ++ [t]⟩ rest
  | .act i env :: rest =>
    if check c i env then
      match c.tasks[i]? with
      | none => none
      | some t => match sys.step env c.shared t with
        | none => none
        | some (s', t') => sys.exec check ⟨s', c.tasks.set i t'⟩ rest
    else none

theorem exec_reachable {sys : System σ τ ε} {allowed : Condition σ τ ε} {check : Config σ τ → Nat → ε → Bool}
    (sound : ∀ c i env, check c i env = true → allowed c i env) (events : List (Event τ ε)) :
    ∀ {c c' : Config σ τ}, Reachable sys allowed c → (∀ t, .spawn t ∈ events → sys.spawn t) →
      sys.exec check c events = some c' → Reachable sys allowed c' := by
  induction events with
  | nil =>
    intro c c' reached _ ran
    obtain rfl := Option.some.inj ran
    exact reached
  | cons event rest ih =>
    intro c c' reached spawns ran
    have later : ∀ t, .spawn t ∈ rest → sys.spawn t := fun t member => spawns t (List.mem_cons_of_mem _ member)
    cases event with
    | spawn t => exact ih (.spawn reached (spawns t List.mem_cons_self)) later ran
    | act i env =>
      simp only [System.exec] at ran
      split at ran
      · rename_i checked
        split at ran
        · cases ran
        · split at ran
          · cases ran
          · exact ih (.act env reached (by assumption) (sound c i env checked) (by assumption)) later ran
      · cases ran

theorem exec_reaches (sys : System σ τ ε) {allowed : Condition σ τ ε} {check : Config σ τ → Nat → ε → Bool}
    (sound : ∀ c i env, check c i env = true → allowed c i env) {s : σ} (events : List (Event τ ε))
    (p : Config σ τ → Bool) (initial : sys.start s) (spawns : ∀ t, .spawn t ∈ events → sys.spawn t)
    (ends : (sys.exec check ⟨s, []⟩ events).map p = some true) : ∃ c, Reachable sys allowed c ∧ p c = true := by
  obtain ⟨c, ran, holds⟩ := Option.map_eq_some_iff.mp ends
  exact ⟨c, exec_reachable sound events (.start initial) spawns ran, holds⟩

def unchecked (_ : Config σ τ) (_ : Nat) (_ : ε) : Bool := true

theorem unchecked_free (c : Config σ τ) (i : Nat) (env : ε) (_ : unchecked c i env = true) :
    free σ τ ε c i env := trivial

/-- Steps of one task in a row, with nothing in between. -/
inductive Alone (sys : System σ τ ε) (env : ε) : σ → τ → σ → τ → Prop where
  | here (s : σ) (t : τ) : Alone sys env s t s t
  | next {s s' s'' : σ} {t t' t'' : τ} (moves : sys.step env s t = some (s', t'))
      (rest : Alone sys env s' t' s'' t'') : Alone sys env s t s'' t''

def System.runAlone (sys : System σ τ ε) (env : ε) : Nat → σ → τ → Option (σ × τ)
  | 0, s, t => some (s, t)
  | n + 1, s, t => (sys.step env s t).bind fun next => sys.runAlone env n next.1 next.2

theorem runAlone_alone {sys : System σ τ ε} {env : ε} (n : Nat) {s s' : σ} {t t' : τ}
    (ran : sys.runAlone env n s t = some (s', t')) : Alone sys env s t s' t' := by
  induction n generalizing s t with
  | zero =>
    obtain ⟨rfl, rfl⟩ := Prod.mk.inj (Option.some.inj ran)
    exact .here _ _
  | succ n ih =>
    obtain ⟨next, moves, rest⟩ := Option.bind_eq_some_iff.mp ran
    exact .next moves (ih rest)

theorem runAlone_reaches (sys : System σ τ ε) (env : ε) (n : Nat) {s : σ} {t : τ} (p : σ → τ → Bool)
    (ends : (sys.runAlone env n s t).map (fun r => p r.1 r.2) = some true) :
    ∃ s' t', Alone sys env s t s' t' ∧ p s' t' = true := by
  obtain ⟨⟨s', t'⟩, ran, holds⟩ := Option.map_eq_some_iff.mp ends
  exact ⟨s', t', runAlone_alone n ran, holds⟩

/-- A resource is free and its invariant holds, or one task holds it and answers for it. -/
inductive Exclusive (holder : τ → Prop) (idle : Prop) (own : τ → Prop) (tasks : List τ) : Prop where
  | free (nobody : ∀ t ∈ tasks, ¬ holder t) (rests : idle)
  | held {i : Nat} {t : τ} (at_i : tasks[i]? = some t) (holds : holder t) (owned : own t)
      (only : ∀ (j : Nat) u, tasks[j]? = some u → holder u → j = i)

section Replaced

variable {α : Type} {xs : List α} {k j : Nat} {x z : α}

theorem set_some {y : α} (here : xs[k]? = some x) (at_j : (xs.set k y)[j]? = some z) :
    k = j ∧ z = y ∨ k ≠ j ∧ xs[j]? = some z := by
  by_cases mine : k = j
  · subst mine
    rw [List.getElem?_set_self (List.getElem?_eq_some_iff.mp here).1] at at_j
    exact .inl ⟨rfl, (Option.some.inj at_j).symm⟩
  · exact .inr ⟨mine, (List.getElem?_set_ne mine).symm.trans at_j⟩

theorem set_at (here : xs[k]? = some x) (y : α) (at_j : xs[j]? = some z) :
    (k = j ∧ z = x ∧ (xs.set k y)[j]? = some y) ∨ k ≠ j ∧ (xs.set k y)[j]? = some z := by
  by_cases mine : k = j
  · subst mine
    exact .inl ⟨rfl, Option.some.inj (at_j.symm.trans here),
      List.getElem?_set_self (List.getElem?_eq_some_iff.mp here).1⟩
  · exact .inr ⟨mine, (List.getElem?_set_ne mine).trans at_j⟩

end Replaced

section Holders

variable {holder own : τ → Prop} {idle : Prop} {tasks : List τ} {i : Nat} {t t' : τ}

theorem Exclusive.spawn (exclusive : Exclusive holder idle own tasks) (outside : ¬ holder t) :
    Exclusive holder idle own (tasks ++ [t]) := by
  cases exclusive with
  | free nobody rests =>
    exact .free (List.forall_mem_append.mpr ⟨nobody, List.forall_mem_singleton.mpr outside⟩) rests
  | held at_i holds owned only =>
    refine .held (List.getElem?_append_left (List.getElem?_eq_some_iff.mp at_i).1 ▸ at_i) holds owned ?_
    intro j u at_j holds_u
    rcases Nat.lt_or_ge j tasks.length with old | new
    · exact only j u (by rwa [List.getElem?_append_left old] at at_j) holds_u
    · rw [List.getElem?_append_right new] at at_j
      have fresh := List.mem_singleton.mp (List.mem_of_getElem? at_j)
      exact absurd (fresh ▸ holds_u) outside

theorem Exclusive.taken (at_i : tasks[i]? = some t) (only : ∀ (j : Nat) u, tasks[j]? = some u → holder u → j = i)
    (takes : holder t') (owned : own t') : Exclusive holder idle own (tasks.set i t') := by
  refine .held (List.getElem?_set_self (List.getElem?_eq_some_iff.mp at_i).1) takes owned fun j u at_j holds_u => ?_
  rcases set_some at_i at_j with ⟨here, _⟩ | ⟨_, old⟩
  · exact here.symm
  · exact only j u old holds_u

theorem Exclusive.released (at_i : tasks[i]? = some t) (only : ∀ (j : Nat) u, tasks[j]? = some u → holder u → j = i)
    (lets : ¬ holder t') (rests : idle) : Exclusive holder idle own (tasks.set i t') := by
  refine .free (fun u member holds_u => ?_) rests
  obtain ⟨j, at_j⟩ := List.getElem?_of_mem member
  rcases set_some at_i at_j with ⟨_, rfl⟩ | ⟨apart, old⟩
  · exact lets holds_u
  · exact apart (only j u old holds_u).symm

end Holders

section Rules

variable {sys : System σ τ ε} {allowed : Condition σ τ ε}

theorem alone_trans {env : ε} {s s' s'' : σ} {t t' t'' : τ} (first : Alone sys env s t s' t')
    (second : Alone sys env s' t' s'' t'') : Alone sys env s t s'' t'' := by
  induction first with
  | here => exact second
  | next moves _ ih => exact .next moves (ih second)

theorem alone_reachable {env : ε} {s s' : σ} {t t' : τ} (steps : Alone sys env s t s' t') :
    ∀ {tasks : List τ} {i : Nat}, Reachable sys (free σ τ ε) ⟨s, tasks⟩ → tasks[i]? = some t →
      Reachable sys (free σ τ ε) ⟨s', tasks.set i t'⟩ := by
  induction steps with
  | here s t =>
    intro tasks i reached at_i
    obtain ⟨inside, same⟩ := List.getElem?_eq_some_iff.mp at_i
    rw [← same, List.set_getElem_self]
    exact reached
  | next moves _ ih =>
    intro tasks i reached at_i
    obtain ⟨inside, _⟩ := List.getElem?_eq_some_iff.mp at_i
    have stepped := Reachable.act env reached at_i trivial moves
    have rest := ih stepped (List.getElem?_set_self inside)
    rwa [List.set_set] at rest

theorem reachable_free {c : Config σ τ} (reached : Reachable sys allowed c) :
    Reachable sys (free σ τ ε) c := by
  induction reached with
  | start initial => exact .start initial
  | spawn _ new ih => exact .spawn ih new
  | act env _ at_i _ moves ih => exact .act env ih at_i trivial moves

/-- An invariant of the shared state and an assertion for each task, kept by its own step and by the
steps of the others. -/
theorem reachable_local (shared : σ → Prop) (own : σ → τ → Prop) (initial : ∀ s, sys.start s → shared s)
    (spawned : ∀ s t, shared s → sys.spawn t → own s t)
    (stepped : ∀ c i env t s' t', Reachable sys allowed c → c.tasks[i]? = some t → allowed c i env →
      sys.step env c.shared t = some (s', t') → shared c.shared → own c.shared t → shared s' ∧ own s' t' ∧
        ∀ u ∈ c.tasks, own c.shared u → own s' u)
    {c : Config σ τ} (reached : Reachable sys allowed c) :
    shared c.shared ∧ ∀ t ∈ c.tasks, own c.shared t := by
  induction reached with
  | start first => exact ⟨initial _ first, fun t member => by cases member⟩
  | @spawn c t before new ih =>
    refine ⟨ih.1, fun u member => ?_⟩
    rcases List.mem_append.mp member with old | fresh
    · exact ih.2 u old
    · rw [List.mem_singleton.mp fresh]
      exact spawned _ t ih.1 new
  | @act c i t t' s' env before at_i permitted moves ih =>
    have member := List.mem_of_getElem? at_i
    obtain ⟨kept, next, stable⟩ := stepped c i env t s' t' before at_i permitted moves ih.1 (ih.2 t member)
    refine ⟨kept, fun u inside => ?_⟩
    rcases List.mem_or_eq_of_mem_set inside with old | fresh
    · exact stable u old (ih.2 u old)
    · rw [fresh]
      exact next

/-- Every duty of the shared state is covered by some task: a step that creates a duty covers it, and a
step that gives up its cover removes the duty. -/
theorem reachable_covered {δ : Type} (duty : σ → δ → Prop) (covers : σ → τ → δ → Prop)
    (initial : ∀ s d, sys.start s → ¬ duty s d)
    (created : ∀ c i env t s' t' d, Reachable sys allowed c → c.tasks[i]? = some t → allowed c i env →
      sys.step env c.shared t = some (s', t') → duty s' d → ¬ duty c.shared d ∨ covers c.shared t d → covers s' t' d)
    (stable : ∀ c i env t s' t' d u, Reachable sys allowed c → c.tasks[i]? = some t → allowed c i env →
      sys.step env c.shared t = some (s', t') → duty c.shared d → covers c.shared u d → covers s' u d)
    {c : Config σ τ} (reached : Reachable sys allowed c) :
    ∀ d, duty c.shared d → ∃ t ∈ c.tasks, covers c.shared t d := by
  induction reached with
  | start first => exact fun d holds => absurd holds (initial _ d first)
  | @spawn c t before new ih =>
    intro d holds
    obtain ⟨u, member, cover⟩ := ih d holds
    exact ⟨u, List.mem_append_left _ member, cover⟩
  | @act c i t t' s' env before at_i permitted moves ih =>
    intro d holds
    by_cases old : duty c.shared d
    · obtain ⟨u, member, cover⟩ := ih d old
      obtain ⟨j, at_j⟩ := List.getElem?_of_mem member
      rcases set_at at_i t' at_j with ⟨rfl, rfl, now⟩ | ⟨_, now⟩
      · have covered := created c i env u s' t' d before at_i permitted moves holds (Or.inr cover)
        exact ⟨t', List.mem_of_getElem? now, covered⟩
      · exact ⟨u, List.mem_of_getElem? now, stable c i env t s' t' d u before at_i permitted moves old cover⟩
    · have covered := created c i env t s' t' d before at_i permitted moves holds (Or.inl old)
      exact ⟨t', List.mem_set (List.getElem?_eq_some_iff.mp at_i).1 t', covered⟩

/-- Resources that at most one task at a time may hold: a task takes one only while nobody holds it and
turns its invariant into its own assertion, and gives the invariant back when it lets go. -/
theorem reachable_exclusive {ρ : Type} (holder : ρ → τ → Prop) (idle : σ → ρ → Prop) (own : σ → ρ → τ → Prop)
    (initial : ∀ s r, sys.start s → idle s r) (spawned : ∀ t r, sys.spawn t → ¬ holder r t)
    (outside : ∀ c i env t s' t' r, Reachable sys allowed c → c.tasks[i]? = some t → allowed c i env →
      sys.step env c.shared t = some (s', t') → ¬ holder r t → ¬ holder r t' → (idle c.shared r → idle s' r) ∧ ∀ u,
        own c.shared r u → own s' r u)
    (enters : ∀ c i env t s' t' r, Reachable sys allowed c → c.tasks[i]? = some t → allowed c i env →
      sys.step env c.shared t = some (s', t') → ¬ holder r t → holder r t' → (∀ u ∈ c.tasks, ¬ holder r u) ∧
        (idle c.shared r → own s' r t'))
    (inside : ∀ c i env t s' t' r, Reachable sys allowed c → c.tasks[i]? = some t → allowed c i env →
      sys.step env c.shared t = some (s', t') → holder r t → own c.shared r t → (holder r t' → own s' r t') ∧
        (¬ holder r t' → idle s' r))
    {c : Config σ τ} (reached : Reachable sys allowed c) (r : ρ) :
    Exclusive (holder r) (idle c.shared r) (own c.shared r) c.tasks := by
  induction reached with
  | start first => exact .free (fun t member => by cases member) (initial _ r first)
  | @spawn c t before new ih => exact ih.spawn (spawned t r new)
  | @act c i t t' s' env before at_i permitted moves ih =>
    cases ih with
    | free nobody rests =>
      have none_holds : ∀ (j : Nat) u, c.tasks[j]? = some u → holder r u → j = i := fun j u at_j holds_u =>
        absurd holds_u (nobody u (List.mem_of_getElem? at_j))
      have before_t := nobody t (List.mem_of_getElem? at_i)
      by_cases takes : holder r t'
      · have entered := enters c i env t s' t' r before at_i permitted moves before_t takes
        exact .taken at_i none_holds takes (entered.2 rests)
      · have kept := outside c i env t s' t' r before at_i permitted moves before_t takes
        exact .released at_i none_holds takes (kept.1 rests)
    | @held k u at_k holds owned only =>
      by_cases same : k = i
      · subst same
        rw [at_i] at at_k
        obtain rfl := Option.some.inj at_k
        have worked := inside c k env t s' t' r before at_i permitted moves holds owned
        by_cases keeps : holder r t'
        · exact .taken at_i only keeps (worked.1 keeps)
        · exact .released at_i only keeps (worked.2 keeps)
      · have before_t : ¬ holder r t := fun holds_t => same (only i t at_i holds_t).symm
        by_cases takes : holder r t'
        · have entered := enters c i env t s' t' r before at_i permitted moves before_t takes
          exact absurd holds (entered.1 u (List.mem_of_getElem? at_k))
        · have kept := outside c i env t s' t' r before at_i permitted moves before_t takes
          refine .held (by rw [List.getElem?_set_ne (Ne.symm same), at_k]) holds (kept.2 u owned) ?_
          intro j v at_j holds_v
          rcases set_some at_i at_j with ⟨_, rfl⟩ | ⟨_, old⟩
          · exact absurd holds_v takes
          · exact only j v old holds_v

end Rules

end KafGo.Lib
