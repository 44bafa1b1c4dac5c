import Mathlib.Tactic.Common

/-!
# Filtering a slice in place

`remaining := xs[:0]; for _, x := range xs { if keep(x) { remaining = append(remaining, x) } else { ... } }`
writes into the array it reads from. The writes stay behind the reads, so the loop sees every element as
it was.
-/

namespace KafGo.Lib

variable {α β : Type}

/-- The loop from index `i` on, with `kept` elements already written to the front of `xs`. Elements that
are not kept act on the state. -/
def inPlaceLoop (keep : α → Bool) (drop : β → α → β) : Nat → Nat → Nat → List α → β → List α × β
  | 0, _, kept, xs, b => (xs.take kept, b)
  | n + 1, i, kept, xs, b =>
    match xs[i]? with
    | none => (xs.take kept, b)
    | some x =>
      if keep x then inPlaceLoop keep drop n (i + 1) (kept + 1) (xs.set kept x) b
      else inPlaceLoop keep drop n (i + 1) kept xs (drop b x)

def inPlaceFilter (keep : α → Bool) (drop : β → α → β) (xs : List α) (b : β) : List α × β :=
  inPlaceLoop keep drop xs.length 0 0 xs b

theorem inPlaceLoop_eq (keep : α → Bool) (drop : β → α → β) (rest : List α) :
    ∀ (front : List α) (kept i : Nat) (b : β), kept ≤ i → i = front.length →
      inPlaceLoop keep drop rest.length i kept (front ++ rest) b =
        (front.take kept ++ rest.filter keep, (rest.filter (fun x => !keep x)).foldl drop b) := by
  induction rest with
  | nil =>
    intro front kept i b behind here
    simp only [List.length_nil, inPlaceLoop, List.append_nil, List.filter_nil, List.foldl_nil]
  | cons x rest ih =>
    intro front kept i b behind here
    have current : (front ++ x :: rest)[i]? = some x := by rw [here]; simp
    have shift : front ++ x :: rest = (front ++ [x]) ++ rest := by simp
    simp only [List.length_cons, inPlaceLoop, current]
    cases keeps : keep x with
    | true =>
      -- The write lands in the part that was already read, or on the element itself.
      have written : (front ++ x :: rest).set kept x = ((front ++ [x]).set kept x) ++ rest := by
        rw [shift, List.set_append_left]
        simp
        omega
      rw [if_pos rfl, written, ih _ (kept + 1) (i + 1) b (by omega) (by simp [here])]
      have front_kept : ((front ++ [x]).set kept x).take (kept + 1) = front.take kept ++ [x] := by
        rw [List.take_add_one, List.take_set_of_le (Nat.le_refl kept), List.take_append_of_le_length (by omega)]
        congr 1
        rw [List.getElem?_set_self (by simp; omega)]
        rfl
      rw [front_kept]
      simp [keeps]
    | false =>
      rw [if_neg (by decide), shift, ih _ kept (i + 1) _ (by omega) (by simp [here]),
        List.take_append_of_le_length (by omega)]
      simp [keeps]

theorem inPlaceFilter_eq (keep : α → Bool) (drop : β → α → β) (xs : List α) (b : β) :
    inPlaceFilter keep drop xs b = (xs.filter keep, (xs.filter (fun x => !keep x)).foldl drop b) := by
  have whole := inPlaceLoop_eq keep drop xs [] 0 0 b (Nat.le_refl 0) rfl
  simpa [inPlaceFilter] using whole

end KafGo.Lib
