import KafGo.Lib.Threads

/-!
# A system inside a larger one

Some of the tasks of a larger system do the work of a smaller one, step by step, and the others leave its state alone.
`reachable_projects` carries what holds in all runs of the smaller system over to the larger one.
-/

namespace KafGo.Lib

variable {σ τ ε σ' τ' ε' : Type}

/-- A restriction on a step by the shared state, the acting task and the environment. -/
def atTask (p : σ → τ → ε → Prop) : Condition σ τ ε := fun c i env => ∀ t, c.tasks[i]? = some t → p c.shared t env

def checkTask (p : σ → τ → ε → Bool) (c : Config σ τ) (i : Nat) (env : ε) : Bool :=
  (c.tasks[i]?).all fun t => p c.shared t env

theorem checkTask_atTask (p : σ → τ → ε → Bool) (c : Config σ τ) (i : Nat) (env : ε)
    (checked : checkTask p c i env = true) :
    atTask (fun s t env => p s t env = true) c i env := by
  intro t found
  simpa only [checkTask, found, Option.all_some] using checked

section Insert

variable {sys : System σ τ ε} {p : σ → τ → ε → Prop}

theorem reachable_mono {allowed wider : Condition σ τ ε} (widens : ∀ c i env, allowed c i env → wider c i env)
    {c : Config σ τ} (reached : Reachable sys allowed c) : Reachable sys wider c := by
  induction reached with
  | start initial => exact .start initial
  | spawn _ new ih => exact .spawn ih new
  | act env _ at_i permitted moves ih => exact .act env ih at_i (widens _ _ _ permitted) moves

theorem reachable_insert {c : Config σ τ} (reached : Reachable sys (atTask p) c) {t : τ} (new : sys.spawn t) (k : Nat) :
    Reachable sys (atTask p) ⟨c.shared, c.tasks.take k ++ t :: c.tasks.drop k⟩ := by
  induction reached with
  | start initial =>
    rw [List.take_nil, List.drop_nil]
    exact .spawn (.start initial) new
  | @spawn c u before fresh ih =>
    rcases Nat.lt_or_ge c.tasks.length k with behind | inside
    · rw [List.take_of_length_le (by simp; omega), List.drop_eq_nil_of_le (by simp; omega)]
      exact .spawn (.spawn before fresh) new
    · rw [List.take_append_of_le_length inside, List.drop_append_of_le_length inside]
      have spawned := Reachable.spawn ih fresh
      simpa only [List.append_assoc, List.cons_append] using spawned
  | @act c i u u' s' env before at_i permitted moves ih =>
    rcases Nat.lt_or_ge i k with early | late
    · -- the acting task stands before the new one
      have at_i' : (c.tasks.take k ++ t :: c.tasks.drop k)[i]? = some u := by
        rw [List.getElem?_append_left (by have := (List.getElem?_eq_some_iff.mp at_i).1; simp; omega),
          List.getElem?_take_of_lt early, at_i]
      have acted := Reachable.act env ih at_i' (fun v found => ?_) moves
      · rw [List.take_set, List.drop_set_of_lt early]
        rwa [List.set_append_left _ _ (by have := (List.getElem?_eq_some_iff.mp at_i).1; simp; omega)] at acted
      · rw [at_i'] at found
        exact permitted v (at_i.trans found)
    · have size : (c.tasks.take k).length = k := by
        have := (List.getElem?_eq_some_iff.mp at_i).1
        simp
        omega
      have at_i' : (c.tasks.take k ++ t :: c.tasks.drop k)[i + 1]? = some u := by
        rw [List.getElem?_append_right (by omega), size, show i + 1 - k = (i - k) + 1 by omega, List.getElem?_cons_succ,
          List.getElem?_drop, show k + (i - k) = i by omega, at_i]
      have acted := Reachable.act env ih at_i' (fun v found => ?_) moves
      · rw [List.set_append_right _ _ (by omega), size, show i + 1 - k = (i - k) + 1 by
          omega, List.set_cons_succ] at acted
        rwa [List.take_set_of_le late, List.drop_set, if_neg (by omega)]
      · rw [at_i'] at found
        exact permitted v (at_i.trans found)

end Insert

/-- What a step of the larger system is for the smaller one: nothing, the start of a task, or a step of its own. -/
inductive Projects (sys : System σ τ ε) (p : σ → τ → ε → Prop) (s s' : σ) (v v' : Option τ) : Prop where
  | idle (same : s' = s) (kept : v' = v)
  | spawns {t : τ} (same : s' = s) (absent : v = none) (present : v' = some t) (new : sys.spawn t)
  | steps {t t' : τ} {env : ε} (here : v = some t) (there : v' = some t') (permitted : p s t env)
      (moves : sys.step env s t = some (s', t'))

theorem filterMap_set (view : τ' → Option τ) {tasks : List τ'} {i : Nat} {u : τ'} (at_i : tasks[i]? = some u)
    (u' : τ') :
    ∃ before after, tasks.filterMap view = before ++ (view u).toList ++ after ∧
      (tasks.set i u').filterMap view = before ++ (view u').toList ++ after := by
  obtain ⟨inside, here⟩ := List.getElem?_eq_some_iff.mp at_i
  refine ⟨(tasks.take i).filterMap view, (tasks.drop (i + 1)).filterMap view, ?_, ?_⟩
  · conv_lhs => rw [← List.take_append_drop i tasks, List.drop_eq_getElem_cons inside, here]
    cases found : view u <;> simp [found]
  · rw [List.set_eq_take_append_cons_drop, if_pos inside]
    cases found : view u' <;> simp [found]

theorem reachable_projects {sys : System σ τ ε} {p : σ → τ → ε → Prop} {larger : System σ' τ' ε'}
    {allowed : Condition σ' τ' ε'} (state : σ' → σ) (view : τ' → Option τ)
    (initial : ∀ s, larger.start s → sys.start (state s))
    (spawned : ∀ u t, larger.spawn u → view u = some t → sys.spawn t)
    (stepped : ∀ c i env u s' u', Reachable larger allowed c → c.tasks[i]? = some u → allowed c i env →
      larger.step env c.shared u = some (s', u') → Projects sys p (state c.shared) (state s') (view u) (view u'))
    {c : Config σ' τ'} (reached : Reachable larger allowed c) :
    Reachable sys (atTask p) ⟨state c.shared, c.tasks.filterMap view⟩ := by
  induction reached with
  | start first => exact .start (initial _ first)
  | @spawn c u before new ih =>
    rw [List.filterMap_append]
    cases found : view u with
    | none => simpa [found] using ih
    | some t =>
      have started := Reachable.spawn ih (spawned u t new found)
      simpa [found] using started
  | @act c i u u' s' env before at_i permitted moves ih =>
    obtain ⟨front, back, old, now⟩ := filterMap_set view at_i u'
    rw [now]
    rw [old] at ih
    cases stepped c i env u s' u' before at_i permitted moves with
    | idle same kept => rwa [same, kept]
    | @spawns t same absent present new =>
      have inserted := reachable_insert ih new front.length
      rw [absent] at inserted
      rw [same, present]
      simpa using inserted
    | @steps t t' env here there allowed moves =>
      have at_t : (front ++ (view u).toList ++ back)[front.length]? = some t := by
        rw [here]
        simp
      have acted := Reachable.act env ih at_t (fun v found => ?_) moves
      · rw [here] at acted
        rw [there]
        simpa using acted
      · rw [at_t] at found
        exact Option.some.inj found ▸ allowed

end KafGo.Lib
