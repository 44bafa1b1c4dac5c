import Mathlib.Algebra.GroupWithZero.Nat
import Mathlib.Tactic.Common

/-!
# Walking a framed file

A loop that reads a header at a position and moves on by the length found there. `walk_cross` carries
an invariant over any list of frames whose headers ask for a step of exactly the frame's length.
`Ends` is the loop without fuel, and `walk_forward` the reason why a loop that only moves forward ends.
-/

namespace KafGo.Lib

variable {ε α φ : Type}

inductive Move (ε α : Type) where
  | next (len : Int) (acc : α)
  | stop (acc : α)
  | fail (e : ε)

/-- `for pos + guard <= limit { ...; pos += len }`. A loop that uses up its fuel is reported as
`diverged`. -/
def walk (diverged : ε) (guard limit : Int) (body : Int → α → Move ε α) :
    Nat → Int → α → Except ε α
  | 0, _, _ => .error diverged
  | fuel + 1, pos, acc =>
    if pos + guard ≤ limit then
      match body pos acc with
      | .next len acc => walk diverged guard limit body fuel (pos + len) acc
      | .stop acc => .ok acc
      | .fail e => .error e
    else .ok acc

section Rules

variable {diverged : ε} {guard limit pos : Int} {body : Int → α → Move ε α} {fuel : Nat} {acc : α}

theorem walk_exit (past : limit < pos + guard) :
    walk diverged guard limit body (fuel + 1) pos acc = .ok acc := by
  rw [walk, if_neg (by omega)]

theorem walk_stop {acc' : α} (room : pos + guard ≤ limit) (stops : body pos acc = .stop acc') :
    walk diverged guard limit body (fuel + 1) pos acc = .ok acc' := by
  rw [walk, if_pos room, stops]

theorem walk_fail {e : ε} (room : pos + guard ≤ limit) (fails : body pos acc = .fail e) :
    walk diverged guard limit body (fuel + 1) pos acc = .error e := by
  rw [walk, if_pos room, fails]

theorem walk_next {len : Int} {acc' : α} (room : pos + guard ≤ limit) (moves : body pos acc = .next len acc') :
    walk diverged guard limit body (fuel + 1) pos acc =
      walk diverged guard limit body fuel (pos + len) acc' := by
  rw [walk, if_pos room, moves]

/-- The walk crosses a list of frames and carries `inv` from no frames to all of them. -/
theorem walk_cross (diverged : ε) (guard limit pos : Int) (body : Int → α → Move ε α) (fuel : Nat) (acc : α)
    (len : φ → Nat) (inv : List φ → α → Prop) (frames : List φ) (start : inv [] acc)
    (turn : ∀ pre f post acc, frames = pre ++ f :: post → inv pre acc → pos + (pre.map len).sum + guard ≤ limit ∧
      ∃ acc', body (pos + (pre.map len).sum) acc = .next (len f) acc' ∧ inv (pre ++ [f]) acc') :
    ∃ acc', inv frames acc' ∧
      walk diverged guard limit body (fuel + frames.length) pos acc =
        walk diverged guard limit body fuel (pos + (frames.map len).sum) acc' := by
  have crossed : ∀ (rest pre : List φ) (acc : α), frames = pre ++ rest → inv pre acc →
      ∃ acc', inv frames acc' ∧
        walk diverged guard limit body (fuel + rest.length) (pos + (pre.map len).sum) acc =
          walk diverged guard limit body fuel (pos + (frames.map len).sum) acc' := by
    intro rest
    induction rest with
    | nil =>
      intro pre acc whole holds
      rw [List.append_nil] at whole
      subst whole
      exact ⟨acc, holds, rfl⟩
    | cons f rest ih =>
      intro pre acc whole holds
      obtain ⟨room, acc', moves, kept⟩ := turn pre f rest acc whole holds
      obtain ⟨final, holdsFinal, walked⟩ := ih (pre ++ [f]) acc' (by simpa using whole) kept
      refine ⟨final, holdsFinal, ?_⟩
      rw [List.length_cons, ← Nat.add_assoc, walk_next room moves, ← walked]
      congr 1
      simp only [List.map_append, List.sum_append, List.map_cons, List.map_nil, List.sum_cons,
        List.sum_nil, Int.natCast_add, Nat.add_zero, Int.add_assoc]
  obtain ⟨final, holds, walked⟩ := crossed frames [] acc rfl start
  exact ⟨final, holds, by simpa using walked⟩

section Pieces

variable {β : Type}
  (diverged : ε) {body : List β → Int → α → Move ε α} {piece : φ → List β} {f : α → φ → α} {items : List φ}

/-- A turn at the start of the piece depends on that piece only and moves behind it. -/
def Crosses (body : List β → Int → α → Move ε α) (piece : φ → List β) (f : α → φ → α) (x : φ) : Prop :=
  piece x ≠ [] ∧ ∀ before after acc,
    body (before ++ (piece x ++ after)) before.length acc = .next (piece x).length (f acc x)

theorem length_le_flatMap (nonempty : ∀ x ∈ items, piece x ≠ []) : items.length ≤ (items.flatMap piece).length := by
  induction items with
  | nil => exact Nat.le_refl 0
  | cons x items ih =>
    have positive := List.length_pos_iff.mpr (nonempty x List.mem_cons_self)
    have shorter := ih fun y member => nonempty y (List.mem_cons_of_mem x member)
    rw [List.flatMap_cons, List.length_append, List.length_cons]
    omega

theorem walk_foldl_behind (before : List β) (crosses : ∀ x ∈ items, Crosses body piece f x) {fuel : Nat} (acc : α)
    (enough : items.length < fuel) :
    walk diverged 1 (before ++ items.flatMap piece).length
      (body (before ++ items.flatMap piece)) fuel before.length acc =
      .ok (items.foldl f acc) := by
  induction items generalizing before fuel acc with
  | nil =>
    obtain ⟨fuel, rfl⟩ : ∃ n, fuel = n + 1 := ⟨fuel - 1, by omega⟩
    apply walk_exit
    simp only [List.flatMap_nil, List.append_nil]
    omega
  | cons x items ih =>
    obtain ⟨fuel, rfl⟩ : ∃ n, fuel = n + 1 := ⟨fuel - 1, by omega⟩
    obtain ⟨nonempty, moves⟩ := crosses x List.mem_cons_self
    have positive := List.length_pos_iff.mpr nonempty
    have position : ((before ++ piece x).length : Int) = before.length + (piece x).length := by
      rw [List.length_append, Int.natCast_add]
    have later := ih (before ++ piece x) (fun y member => crosses y (List.mem_cons_of_mem x member)) (f acc x)
      (Nat.lt_of_succ_lt_succ enough)
    rw [List.flatMap_cons, walk_next (by simp only [List.length_append]; omega) (moves before _ acc), List.foldl_cons]
    rwa [List.append_assoc, position] at later

theorem walk_foldl (crosses : ∀ x ∈ items, Crosses body piece f x) (acc : α) :
    walk diverged 1 (items.flatMap piece).length (body (items.flatMap piece)) ((items.flatMap piece).length + 1) 0 acc =
      .ok (items.foldl f acc) :=
  walk_foldl_behind diverged [] crosses acc (Nat.lt_succ_of_le (length_le_flatMap fun x member => (crosses x member).1))

end Pieces

end Rules

/-! ### Without fuel -/

/-- The loop ends with a result. -/
inductive Ends (guard limit : Int) (body : Int → α → Move ε α) : Int → α → Except ε α → Prop where
  | exit {pos : Int} {acc : α} (past : limit < pos + guard) : Ends guard limit body pos acc (.ok acc)
  | stop {pos : Int} {acc acc' : α} (room : pos + guard ≤ limit) (stops : body pos acc = .stop acc') :
      Ends guard limit body pos acc (.ok acc')
  | fail {pos : Int} {acc : α} {e : ε} (room : pos + guard ≤ limit) (fails : body pos acc = .fail e) :
      Ends guard limit body pos acc (.error e)
  | next {pos len : Int} {acc acc' : α} {r : Except ε α} (room : pos + guard ≤ limit)
      (moves : body pos acc = .next len acc') (rest : Ends guard limit body (pos + len) acc' r) :
      Ends guard limit body pos acc r

inductive Visits (guard limit : Int) (body : Int → α → Move ε α) (pos : Int) (acc : α) : Int → α → Prop where
  | here : Visits guard limit body pos acc pos acc
  | next {p len : Int} {a a' : α} (before : Visits guard limit body pos acc p a) (room : p + guard ≤ limit)
      (moves : body p a = .next len a') : Visits guard limit body pos acc (p + len) a'

/-- Every turn stops or moves forward. -/
def Forward (guard limit : Int) (body : Int → α → Move ε α) (pos : Int) (acc : α) : Prop :=
  ∀ p a len a', Visits guard limit body pos acc p a → p + guard ≤ limit → body p a = .next len a' → 0 < len

section Rules

variable {guard limit pos p len : Int} {body : Int → α → Move ε α} {acc acc' a : α} {r r' : Except ε α}

theorem visits_head (room : pos + guard ≤ limit) (moves : body pos acc = .next len acc')
    (later : Visits guard limit body (pos + len) acc' p a) : Visits guard limit body pos acc p a := by
  induction later with
  | here => exact .next .here room moves
  | next _ room' moves' ih => exact .next ih room' moves'

theorem visits_ends (visits : Visits guard limit body pos acc p a) (rest : Ends guard limit body p a r) :
    Ends guard limit body pos acc r := by
  induction visits with
  | here => exact rest
  | next _ room moves ih => exact ih (.next room moves rest)

theorem ends_visits {result : α} (ends : Ends guard limit body pos acc (.ok result)) :
    ∃ p a, Visits guard limit body pos acc p a ∧
      ((limit < p + guard ∧ a = result) ∨ (p + guard ≤ limit ∧ body p a = .stop result)) := by
  generalize same : Except.ok result = r at ends
  induction ends with
  | exit past => exact ⟨_, _, .here, Or.inl ⟨past, (Except.ok.inj same).symm⟩⟩
  | stop room stops => exact ⟨_, _, .here, Or.inr ⟨room, by rw [stops, Except.ok.inj same]⟩⟩
  | fail => cases same
  | next room moves _ ih =>
    obtain ⟨p, a, visits, ending⟩ := ih same
    exact ⟨p, a, visits_head room moves visits, ending⟩

theorem walk_ends {diverged : ε} {fuel : Nat} {result : α}
    (walked : walk diverged guard limit body fuel pos acc = .ok result) :
    Ends guard limit body pos acc (.ok result) := by
  induction fuel generalizing pos acc with
  | zero => cases walked
  | succ fuel ih =>
    rw [walk] at walked
    split at walked
    · rename_i room
      cases turn : body pos acc with
      | next len acc' =>
        rw [turn] at walked
        exact .next room turn (ih walked)
      | stop acc' =>
        rw [turn] at walked
        rw [← Except.ok.inj walked]
        exact .stop room turn
      | fail e =>
        rw [turn] at walked
        cases walked
    · rw [← Except.ok.inj walked]
      exact .exit (by omega)

theorem ends_unique (one : Ends guard limit body pos acc r) (other : Ends guard limit body pos acc r') : r = r' := by
  induction one with
  | exit past =>
    cases other with
    | exit => rfl
    | stop room | fail room | next room => omega
  | stop room stops =>
    cases other with
    | exit => omega
    | stop _ stops' =>
      rw [stops] at stops'
      rw [Move.stop.inj stops']
    | fail _ other | next _ other => rw [stops] at other; cases other
  | fail room fails =>
    cases other with
    | exit => omega
    | fail _ fails' =>
      rw [fails] at fails'
      rw [Move.fail.inj fails']
    | stop _ other | next _ other => rw [fails] at other; cases other
  | next room moves _ ih =>
    cases other with
    | exit => omega
    | next _ moves' rest =>
      rw [moves] at moves'
      obtain ⟨rfl, rfl⟩ := Move.next.inj moves'
      exact ih rest
    | stop _ other | fail _ other => rw [moves] at other; cases other

/-- A loop that only moves forward ends, and fuel for the rest of the file is enough for it. -/
theorem walk_forward (diverged : ε) (fuel : Nat) (forward : Forward guard limit body pos acc)
    (enough : limit + 1 < pos + guard + fuel) :
    ∃ r, Ends guard limit body pos acc r ∧ (0 < fuel → walk diverged guard limit body fuel pos acc = r) := by
  induction fuel generalizing pos acc with
  | zero => exact ⟨.ok acc, .exit (by omega), fun positive => absurd positive (by decide)⟩
  | succ fuel ih =>
    by_cases room : pos + guard ≤ limit
    · cases turn : body pos acc with
      | stop acc' => exact ⟨_, .stop room turn, fun _ => walk_stop room turn⟩
      | fail e => exact ⟨_, .fail room turn, fun _ => walk_fail room turn⟩
      | next len acc' =>
        have ahead := forward pos acc len acc' .here room turn
        have onward : Forward guard limit body (pos + len) acc' :=
          fun p a len' a' visits => forward p a len' a' (visits_head room turn visits)
        obtain ⟨r, ends, walked⟩ := ih onward (by omega)
        refine ⟨r, .next room turn ends, fun _ => ?_⟩
        rw [walk_next room turn, walked (by omega)]
    · exact ⟨.ok acc, .exit (by omega), fun _ => walk_exit (by omega)⟩

/-- A turn that stays where it is, whatever was accumulated, is made for ever. -/
theorem not_ends_of_stays (inv : α → Prop) (room : pos + guard ≤ limit)
    (stays : ∀ acc, inv acc → ∃ acc', body pos acc = .next 0 acc' ∧ inv acc') (start : inv acc) :
    ¬ Ends guard limit body pos acc r := by
  intro ends
  generalize here : pos = p at ends
  induction ends with
  | exit past => omega
  | stop _ stops =>
    obtain ⟨_, moves, _⟩ := stays _ start
    rw [here, stops] at moves
    cases moves
  | fail _ fails =>
    obtain ⟨_, moves, _⟩ := stays _ start
    rw [here, fails] at moves
    cases moves
  | next _ moves _ ih =>
    obtain ⟨_, still, kept⟩ := stays _ start
    rw [here, moves] at still
    obtain ⟨rfl, rfl⟩ := Move.next.inj still
    exact ih kept (by omega)

end Rules

end KafGo.Lib
