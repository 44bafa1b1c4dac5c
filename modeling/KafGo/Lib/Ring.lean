import Mathlib.Data.List.Rotate

/-!
# Rings

An array of fixed length written round and round. Read from the write position on, it lists its slots from
the oldest to the newest, and a write keeps the last ones of that list and the new slot.
-/

namespace KafGo.Lib

variable {α β : Type}

def keepLast (n : Nat) (xs : List α) : List α := xs.drop (xs.length - n)

theorem keepLast_of_le {n : Nat} {xs : List α} (short : xs.length ≤ n) : keepLast n xs = xs := by
  unfold keepLast
  rw [Nat.sub_eq_zero_of_le short, List.drop_zero]

theorem length_keepLast (n : Nat) (xs : List α) : (keepLast n xs).length = min n xs.length := by
  unfold keepLast
  rw [List.length_drop]
  omega

theorem keepLast_append (n : Nat) (xs ys : List α) :
    keepLast n (xs ++ ys) = keepLast (n - ys.length) xs ++ keepLast n ys := by
  unfold keepLast
  rw [List.drop_append, List.length_append]
  congr 1
  · by_cases long : n ≤ ys.length
    · rw [List.drop_eq_nil_of_le (by omega), List.drop_eq_nil_of_le (by omega)]
    · congr 1
      omega
  · congr 1
    omega

theorem keepLast_suffix {n : Nat} {ys : List α} (xs : List α) (long : n ≤ ys.length) :
    keepLast n (xs ++ ys) = keepLast n ys := by
  rw [keepLast_append, Nat.sub_eq_zero_of_le long]
  simp [keepLast]

theorem keepLast_keepLast_append (n : Nat) (xs ys : List α) :
    keepLast n (keepLast n xs ++ ys) = keepLast n (xs ++ ys) := by
  rw [keepLast_append, keepLast_append]
  congr 1
  unfold keepLast
  rw [List.drop_drop, List.length_drop]
  congr 1
  omega

theorem keepLast_map (f : α → β) (n : Nat) (xs : List α) : keepLast n (xs.map f) = (keepLast n xs).map f := by
  unfold keepLast
  rw [List.map_drop, List.length_map]

theorem keepLast_filter {n : Nat} {xs : List α} {p : α → Bool} (recent : ∀ x ∈ keepLast n xs, p x = true) :
    keepLast n (xs.filter p) = keepLast n xs := by
  have parts : xs = xs.take (xs.length - n) ++ keepLast n xs := (List.take_append_drop _ _).symm
  by_cases short : xs.length ≤ n
  · rw [keepLast_of_le short] at recent
    rw [List.filter_eq_self.mpr recent]
  · have size : n ≤ (keepLast n xs).length := by
      rw [length_keepLast]
      omega
    nth_rewrite 1 [parts]
    rw [List.filter_append, List.filter_eq_self.mpr recent, keepLast_suffix _ size,
      keepLast_of_le (by rw [length_keepLast]; omega)]

theorem mem_of_mem_keepLast {n : Nat} {xs : List α} {x : α} (member : x ∈ keepLast n xs) : x ∈ xs :=
  List.mem_of_mem_drop member

/-- Writing items a second time keeps the same ones, if they are all there is or nothing has to go. -/
theorem mem_keepLast_again {n j : Nat} {xs ys : List α} (spare : j = 0 ∨ xs = [] ∨ xs.length + j + ys.length ≤ n)
    (x : α) :
    x ∈ keepLast n (xs ++ ys.take j ++ ys) ↔ x ∈ keepLast n (xs ++ ys) := by
  rcases spare with rfl | rfl | room
  · rw [List.take_zero, List.append_nil]
  · rw [List.nil_append, List.nil_append]
    by_cases long : n ≤ ys.length
    · rw [keepLast_suffix _ long]
    · rw [keepLast_append, keepLast_of_le (by omega : ys.length ≤ n), List.mem_append]
      refine ⟨fun member => member.elim (fun early => ?_) id, Or.inr⟩
      exact List.mem_of_mem_take (mem_of_mem_keepLast early)
  · have shorter : (ys.take j).length ≤ j := by
      rw [List.length_take]
      omega
    rw [keepLast_of_le (by simp only [List.length_append]; omega),
      keepLast_of_le (by simp only [List.length_append]; omega)]
    simp only [List.mem_append]
    refine ⟨fun member => ?_, fun member => ?_⟩
    · rcases member with (first | early) | second
      · exact Or.inl first
      · exact Or.inr (List.mem_of_mem_take early)
      · exact Or.inr second
    · exact member.imp_left Or.inl

theorem rotate_set {l : List α} {head : Nat} (inside : head < l.length) (x : α) :
    (l.set head x).rotate ((head + 1) % l.length) = keepLast l.length (l.rotate head ++ [x]) := by
  have written : (l.set head x).rotate ((head + 1) % l.length) = l.drop (head + 1) ++ (l.take head ++ [x]) := by
    have size : (l.set head x).length = l.length := List.length_set
    rw [← size, List.rotate_mod, List.rotate_eq_drop_append_take (by rw [size]; omega),
      List.drop_set_of_lt (by omega), List.take_succ_eq_append_getElem (by rw [size]; exact inside),
      List.getElem_set_self, List.take_set_of_le (Nat.le_refl _)]
  have oldest : l.rotate head ++ [x] = l.get ⟨head, inside⟩ :: (l.drop (head + 1) ++ (l.take head ++ [x])) := by
    rw [List.rotate_eq_drop_append_take (Nat.le_of_lt inside), List.drop_eq_getElem_cons inside,
      List.cons_append, List.cons_append, List.append_assoc]
    rfl
  have one : (l.rotate head ++ [x]).length - l.length = 1 := by
    rw [List.length_append, List.length_rotate, List.length_singleton]
    omega
  unfold keepLast
  rw [one, written, oldest, List.drop_succ_cons, List.drop_zero]

end KafGo.Lib
