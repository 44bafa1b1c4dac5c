import Mathlib.Logic.Function.Basic
import Mathlib.Tactic.Common

/-!
# Objects behind names

A map from names to objects that are also held directly: replacing the object of a name leaves the old one to those
who hold it. Every object is made for one name, and a write to an object is seen under no other name.
-/

namespace KafGo.Lib

variable {κ ω : Type}

/-- `heap` lists all objects that were ever made, `live` are those the map points to. -/
structure Objects (κ ω : Type) where
  heap : List ω
  live : κ → Option Nat

namespace Objects

def empty : Objects κ ω := ⟨[], fun _ => none⟩

def get (s : Objects κ ω) (k : κ) : Option ω := (s.live k).bind (s.heap[·]?)

def renew [DecidableEq κ] (s : Objects κ ω) (k : κ) (o : ω) : Objects κ ω :=
  ⟨s.heap ++ [o], Function.update s.live k (some s.heap.length)⟩

def write (s : Objects κ ω) (i : Nat) (o : ω) : Objects κ ω := { s with heap := s.heap.set i o }

section Names

variable {s : Objects κ ω} {name : ω → κ} {k k' : κ} {o : ω} {i j : Nat}

def Refers (s : Objects κ ω) (name : ω → κ) (i : Nat) (k : κ) : Prop := (s.heap[i]?).map name = some k

def Owned (s : Objects κ ω) (name : ω → κ) : Prop := ∀ k i, s.live k = some i → s.Refers name i k

theorem empty_owned : (empty : Objects κ ω).Owned name := fun _ _ => nofun

theorem Refers.eq (refers : s.Refers name i k) (other : s.Refers name i k') : k = k' :=
  Option.some.inj (refers.symm.trans other)

theorem Owned.get (owned : s.Owned name) (found : s.get k = some o) : name o = k := by
  obtain ⟨i, points, read⟩ := Option.bind_eq_some_iff.mp found
  have refers := owned k i points
  rw [Refers, read] at refers
  exact Option.some.inj refers

theorem get_live (points : s.live k = some i) : s.get k = s.heap[i]? := by
  rw [Objects.get, points, Option.bind_some]

theorem Refers.write (refers : s.Refers name i k) (same : s.Refers name j (name o)) :
    (s.write j o).Refers name i k := by
  unfold Refers Objects.write
  by_cases here : j = i
  · subst here
    obtain rfl := refers.eq same
    obtain ⟨old, read, _⟩ := Option.map_eq_some_iff.mp refers
    obtain ⟨inside, _⟩ := List.getElem?_eq_some_iff.mp read
    rw [List.getElem?_set_self inside, Option.map_some]
  · rw [List.getElem?_set_ne here]
    exact refers

theorem Owned.write (owned : s.Owned name) (same : s.Refers name j (name o)) : (s.write j o).Owned name :=
  fun k i points => (owned k i points).write same

theorem get_write_other (owned : s.Owned name) (refers : s.Refers name j k) (other : k' ≠ k) :
    (s.write j o).get k' = s.get k' := by
  cases points : s.live k' with
  | none => simp only [Objects.get, Objects.write, points, Option.bind_none]
  | some i =>
    have apart : j ≠ i := by
      rintro rfl
      exact other ((owned k' j points).eq refers)
    simp only [Objects.get, Objects.write, points, Option.bind_some, List.getElem?_set_ne apart]

theorem get_write_live {old : ω} (points : s.live k = some i) (read : s.heap[i]? = some old) :
    (s.write i o).get k = some o := by
  obtain ⟨inside, _⟩ := List.getElem?_eq_some_iff.mp read
  simp only [Objects.get, Objects.write, points, Option.bind_some, List.getElem?_set_self inside]

section Renew

variable [DecidableEq κ]

theorem Refers.renew (refers : s.Refers name i k) (k' : κ) (o : ω) : (s.renew k' o).Refers name i k := by
  obtain ⟨old, read, _⟩ := Option.map_eq_some_iff.mp refers
  obtain ⟨inside, _⟩ := List.getElem?_eq_some_iff.mp read
  unfold Refers Objects.renew
  rw [List.getElem?_append_left inside]
  exact refers

theorem get_renew_self (s : Objects κ ω) (k : κ) (o : ω) : (s.renew k o).get k = some o := by
  simp only [Objects.get, Objects.renew, Function.update_self, Option.bind_some, List.getElem?_concat_length]

theorem live_renew_self (s : Objects κ ω) (k : κ) (o : ω) : (s.renew k o).live k = some s.heap.length :=
  Function.update_self ..

theorem get_renew_other (owned : s.Owned name) (other : k' ≠ k) : (s.renew k o).get k' = s.get k' := by
  cases points : s.live k' with
  | none => simp only [Objects.get, Objects.renew, Function.update_of_ne other, points, Option.bind_none]
  | some i =>
    obtain ⟨old, read, _⟩ := Option.map_eq_some_iff.mp (owned k' i points)
    obtain ⟨inside, _⟩ := List.getElem?_eq_some_iff.mp read
    simp only [Objects.get, Objects.renew, Function.update_of_ne other, points, Option.bind_some,
      List.getElem?_append_left inside]

theorem Owned.renew (owned : s.Owned name) (same : name o = k) : (s.renew k o).Owned name := by
  intro k' i points
  by_cases here : k' = k
  · subst here
    obtain rfl := Option.some.inj ((live_renew_self s k' o).symm.trans points)
    unfold Refers Objects.renew
    rw [List.getElem?_concat_length, Option.map_some, same]
  · have before : s.live k' = some i := (Function.update_of_ne here ..).symm.trans points
    exact (owned k' i before).renew k o

end Renew

/-- From one map to a later one: objects keep their names, and only names in `changed` lead to something else. -/
structure Moves (s s' : Objects κ ω) (name : ω → κ) (changed : κ → Prop) : Prop where
  owned : s'.Owned name
  refers : ∀ i k, s.Refers name i k → s'.Refers name i k
  others : ∀ k, ¬ changed k → s'.get k = s.get k

theorem Owned.moves (owned : s.Owned name) (changed : κ → Prop) : Moves s s name changed :=
  ⟨owned, fun _ _ refers => refers, fun _ _ => rfl⟩

theorem Moves.trans {s' s'' : Objects κ ω} {changed : κ → Prop} (first : Moves s s' name changed)
    (second : Moves s' s'' name changed) : Moves s s'' name changed where
  owned := second.owned
  refers i k refers := second.refers i k (first.refers i k refers)
  others k other := (second.others k other).trans (first.others k other)

theorem Moves.mono {s' : Objects κ ω} {changed more : κ → Prop} (moves : Moves s s' name changed)
    (grows : ∀ k, changed k → more k) : Moves s s' name more :=
  ⟨moves.owned, moves.refers, fun k other => moves.others k fun here => other (grows k here)⟩

theorem renew_moves [DecidableEq κ] (owned : s.Owned name) (same : name o = k) : Moves s (s.renew k o) name (· = k) :=
  ⟨owned.renew same, fun _ _ refers => refers.renew k o, fun _ other => get_renew_other owned other⟩

theorem write_moves (owned : s.Owned name) (refers : s.Refers name j k) (same : name o = k) :
    Moves s (s.write j o) name (· = k) := by
  subst same
  exact ⟨owned.write refers, fun _ _ here => here.write refers, fun _ other => get_write_other owned refers other⟩

end Names

end Objects

end KafGo.Lib
