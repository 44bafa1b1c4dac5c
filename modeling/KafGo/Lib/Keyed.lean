import Mathlib.Data.List.Induction
import Mathlib.Data.List.Nodup
import Mathlib.Tactic.Common

/-!
# Maps as lists

A map whose values hold their own key, as the list of its values in the order of their insertion.
-/

namespace KafGo.Lib

variable {α κ : Type} [DecidableEq κ]

def lookupKey (key : α → κ) (values : List α) (k : κ) : Option α := values.find? fun a => decide (key a = k)

def insertKey (key : α → κ) (values : List α) (a : α) : List α :=
  if key a ∈ values.map key then values.map fun b => if key b = key a then a else b else values ++ [a]

def deleteKey (key : α → κ) (values : List α) (k : κ) : List α := values.filter fun a => decide (key a ≠ k)

variable {key : α → κ} {values : List α}

theorem lookupKey_some {k : κ} {a : α} (found : lookupKey key values k = some a) : a ∈ values ∧ key a = k :=
  ⟨List.mem_of_find?_eq_some found, by simpa using List.find?_some found⟩

theorem lookupKey_none {k : κ} : lookupKey key values k = none ↔ k ∉ values.map key := by
  unfold lookupKey
  rw [List.find?_eq_none]
  constructor
  · intro missing member
    obtain ⟨a, inside, same⟩ := List.mem_map.mp member
    exact missing a inside (decide_eq_true same)
  · intro missing a inside same
    apply missing
    exact of_decide_eq_true same ▸ List.mem_map_of_mem inside

theorem lookupKey_of_mem (distinct : (values.map key).Nodup) {a : α} (member : a ∈ values) :
    lookupKey key values (key a) = some a := by
  cases found : lookupKey key values (key a) with
  | none => exact absurd (List.mem_map_of_mem member) (lookupKey_none.mp found)
  | some b =>
    obtain ⟨inside, same⟩ := lookupKey_some found
    exact congrArg some (List.inj_on_of_nodup_map distinct inside member same)

omit [DecidableEq κ] in
/-- A fold over values with distinct keys: one of them sets a property, the others keep it. -/
theorem foldl_at {σ : Type} {step : σ → α → σ} {p q : σ → Prop} {a : α} (distinct : (values.map key).Nodup)
    (member : a ∈ values) (before : ∀ s, ∀ b ∈ values, key b ≠ key a → p s → p (step s b))
    (sets : ∀ s, p s → q (step s a)) (after : ∀ s, ∀ b ∈ values, key b ≠ key a → q s → q (step s b)) {s : σ}
    (first : p s) : q (values.foldl step s) := by
  induction values generalizing s with
  | nil => cases member
  | cons c rest ih =>
    rw [List.map_cons, List.nodup_cons] at distinct
    rw [List.foldl_cons]
    rcases List.mem_cons.mp member with rfl | inside
    · refine List.foldlRecOn (motive := q) _ _ (sets s first) ?_
      intro s' set b later
      exact after s' b (List.mem_cons_of_mem _ later) (fun same => distinct.1 (same ▸ List.mem_map_of_mem later)) set
    · apply ih distinct.2 inside
      · exact fun s' b later => before s' b (List.mem_cons_of_mem _ later)
      · exact fun s' b later => after s' b (List.mem_cons_of_mem _ later)
      · exact before s c List.mem_cons_self (fun same => distinct.1 (same ▸ List.mem_map_of_mem inside)) first

theorem mem_insertKey {a b : α} (member : b ∈ insertKey key values a) : b = a ∨ b ∈ values ∧ key b ≠ key a := by
  unfold insertKey at member
  split at member
  · obtain ⟨c, inside, rfl⟩ := List.mem_map.mp member
    split
    · exact .inl rfl
    · rename_i other
      exact .inr ⟨inside, other⟩
  · rename_i absent
    rcases List.mem_append.mp member with old | fresh
    · exact .inr ⟨old, fun same => absent (same ▸ List.mem_map_of_mem old)⟩
    · exact .inl (List.mem_singleton.mp fresh)

theorem lookupKey_insertKey_same (a : α) : lookupKey key (insertKey key values a) (key a) = some a := by
  unfold insertKey
  split
  · rename_i present
    have replaced : ∀ rest : List α, key a ∈ rest.map key →
        (rest.map fun b => if key b = key a then a else b).find? (fun b => decide (key b = key a)) = some a := by
      intro rest
      induction rest with
      | nil => exact fun member => absurd member List.not_mem_nil
      | cons b rest ih =>
        intro member
        rw [List.map_cons, List.find?_cons]
        by_cases same : key b = key a
        · rw [if_pos same, decide_eq_true rfl]
        · rw [if_neg same, decide_eq_false same]
          exact ih ((List.mem_cons.mp member).resolve_left fun eq => same eq.symm)
    exact replaced values present
  · rename_i absent
    have missing := lookupKey_none.mpr absent
    unfold lookupKey at missing ⊢
    rw [List.find?_append, missing]
    simp

theorem lookupKey_insertKey_other (a : α) {k : κ} (other : k ≠ key a) :
    lookupKey key (insertKey key values a) k = lookupKey key values k := by
  unfold insertKey lookupKey
  split
  · rw [List.find?_map]
    have unmoved : ((fun b => decide (key b = k)) ∘ fun b => if key b = key a then a else b) =
        fun b => decide (key b = k) := by
      funext b
      rw [Function.comp_apply]
      split
      · rename_i same
        rw [same]
      · rfl
    rw [unmoved]
    cases found : values.find? fun b => decide (key b = k) with
    | none => rfl
    | some b =>
      have here : key b = k := by simpa using List.find?_some found
      rw [Option.map_some, if_neg (by rw [here]; exact other)]
  · rw [List.find?_append, List.find?_singleton, if_neg (by simpa using other.symm), Option.or_none]

theorem keys_insertKey (a : α) : (insertKey key values a).map key =
    if key a ∈ values.map key then values.map key else values.map key ++ [key a] := by
  unfold insertKey
  split
  · rw [List.map_map]
    apply List.map_congr_left
    intro b _
    simp only [Function.comp_apply]
    split
    · rename_i same
      exact same.symm
    · rfl
  · rw [List.map_append, List.map_singleton]

theorem mem_keys_insertKey (a : α) {k : κ} : k ∈ (insertKey key values a).map key ↔ k ∈ values.map key ∨ k = key a := by
  rw [keys_insertKey]
  split
  · rename_i present
    constructor
    · exact Or.inl
    · rintro (old | rfl)
      · exact old
      · exact present
  · rw [List.mem_append, List.mem_singleton]

omit [DecidableEq κ] in
theorem nodup_map_concat (distinct : (values.map key).Nodup) {a : α} (fresh : ∀ b ∈ values, key b ≠ key a) :
    ((values ++ [a]).map key).Nodup := by
  rw [List.map_append, List.map_singleton]
  apply List.nodup_append.mpr
  refine ⟨distinct, List.nodup_singleton _, ?_⟩
  intro k old k' new same
  obtain ⟨b, inside, rfl⟩ := List.mem_map.mp old
  exact fresh b inside (same.trans (List.mem_singleton.mp new))

theorem nodup_insertKey (distinct : (values.map key).Nodup) (a : α) : ((insertKey key values a).map key).Nodup := by
  rw [keys_insertKey]
  split
  · exact distinct
  · rename_i absent
    rw [← List.map_singleton, ← List.map_append]
    apply nodup_map_concat distinct
    intro b inside same
    exact absent (same ▸ List.mem_map_of_mem inside)

theorem forall_insertKey {p : α → Prop} (all : ∀ b ∈ values, p b) {a : α} (new : p a) :
    ∀ b ∈ insertKey key values a, p b := by
  intro b member
  rcases mem_insertKey member with rfl | ⟨old, _⟩
  · exact new
  · exact all b old

omit [DecidableEq κ] in
theorem nodup_filter_keys (distinct : (values.map key).Nodup) (p : α → Bool) : ((values.filter p).map key).Nodup :=
  (List.filter_sublist.map key).nodup distinct

def lastWhere (p : α → Bool) (xs : List α) : Option α := xs.reverse.find? p

theorem lastWhere_append (p : α → Bool) (xs ys : List α) :
    lastWhere p (xs ++ ys) = (lastWhere p ys).or (lastWhere p xs) := by
  unfold lastWhere
  rw [List.reverse_append, List.find?_append]

theorem lastWhere_map {β : Type} (p : β → Bool) (f : α → β) (xs : List α) :
    lastWhere p (xs.map f) = (lastWhere (p ∘ f) xs).map f := by
  unfold lastWhere
  rw [← List.map_reverse, List.find?_map]

theorem lastWhere_none {p : α → Bool} {xs : List α} (absent : ∀ a ∈ xs, p a = false) : lastWhere p xs = none := by
  unfold lastWhere
  rw [List.find?_eq_none]
  intro a member
  rw [absent a (List.mem_reverse.mp member)]
  decide

/-- Writes to a map: a key holds what the last write to it wrote. -/
theorem foldl_update {β : Type} (val : α → β) (xs : List α) (m : κ → Option β) (k : κ) :
    (xs.foldl (fun m a => Function.update m (key a) (some (val a))) m) k =
      ((lastWhere (fun a => decide (key a = k)) xs).map val).or (m k) := by
  induction xs using List.reverseRecOn with
  | nil => rfl
  | append_singleton xs a ih =>
    rw [List.foldl_append, List.foldl_cons, List.foldl_nil, lastWhere_append]
    by_cases same : key a = k
    · subst same
      simp [lastWhere]
    · rw [Function.update_of_ne (Ne.symm same), ih]
      simp [lastWhere, same]

end KafGo.Lib
