import Mathlib.Tactic.Common

/-!
# Binary search for a floor

`bisect` looks for the last index whose probe does not say "too large". An index whose probe says
"equal" is returned at once.
-/

namespace KafGo.Lib

def bisect (probe : Nat → Ordering) : Nat → Int → Int → Int → Int
  | 0, _, _, result => result
  | fuel + 1, left, right, result =>
    if left ≤ right then
      let mid := left + (right - left) / 2
      match probe mid.toNat with
      | .eq => mid
      | .lt => bisect probe fuel (mid + 1) right mid
      | .gt => bisect probe fuel left (mid - 1) result
    else result

/-- The search keeps `result = left - 1` and the floor between `left - 1` and `right`. -/
theorem bisect_window {probe : Nat → Ordering} {n k : Nat} (below : ∀ i < n, probe i ≠ .gt ↔ i < k)
    (exact : ∀ i < n, probe i = .eq → i + 1 = k) (fuel : Nat) (left right : Int) (low : 0 ≤ left) (high : right < n)
    (leftFloor : left ≤ k) (rightFloor : (k : Int) ≤ right + 1) (enough : right - left < fuel) :
    bisect probe fuel left right (left - 1) = (k : Int) - 1 := by
  induction fuel generalizing left right with
  | zero =>
    rw [bisect]
    omega
  | succ fuel ih =>
    rw [bisect]
    split
    · rename_i window
      obtain ⟨mid, midEq⟩ : ∃ mid : Nat, left + (right - left) / 2 = mid :=
        ⟨(left + (right - left) / 2).toNat, by omega⟩
      have inside : mid < n := by omega
      simp only [midEq, Int.toNat_natCast]
      cases found : probe mid with
      | eq =>
        have := exact mid inside found
        dsimp only
        omega
      | lt =>
        have := (below mid inside).mp (by rw [found]; decide)
        dsimp only
        have next := ih (mid + 1) right (by omega) high (by omega) rightFloor (by omega)
        rwa [Int.add_sub_cancel] at next
      | gt =>
        have : ¬ mid < k := fun h => (below mid inside).mpr h found
        exact ih left (mid - 1) low (by omega) leftFloor (by omega) (by omega)
    · omega

theorem bisect_floor {probe : Nat → Ordering} {n k : Nat} (inside : k ≤ n) (below : ∀ i < n, probe i ≠ .gt ↔ i < k)
    (exact : ∀ i < n, probe i = .eq → i + 1 = k) :
    bisect probe n 0 (n - 1) (-1) = (k : Int) - 1 :=
  bisect_window below exact n 0 (n - 1) (by omega) (by omega) (by omega) (by omega) (by omega)

theorem exists_floor (p : Nat → Prop) (n : Nat) (down : ∀ i j, i < j → j < n → p j → p i) :
    ∃ k ≤ n, ∀ i < n, p i ↔ i < k := by
  induction n with
  | zero => exact ⟨0, Nat.le_refl 0, fun i below => absurd below (by omega)⟩
  | succ n ih =>
    by_cases last : p n
    · refine ⟨n + 1, Nat.le_refl _, fun i below => ⟨fun _ => below, fun _ => ?_⟩⟩
      rcases Nat.lt_succ_iff_lt_or_eq.mp below with earlier | rfl
      · exact down i n earlier (by omega) last
      · exact last
    · obtain ⟨k, inside, floor⟩ := ih (fun i j order below => down i j order (by omega))
      refine ⟨k, by omega, fun i below => ?_⟩
      rcases Nat.lt_succ_iff_lt_or_eq.mp below with earlier | rfl
      · exact floor i earlier
      · exact ⟨fun holds => absurd holds last, fun small => by omega⟩

theorem bisect_result {probe : Nat → Ordering} {n : Nat} {p : Int → Prop} (hit : ∀ i < n, probe i ≠ .gt → p i)
    (fuel : Nat) (left right result : Int) (low : 0 ≤ left) (high : right < n) (start : p result) :
    p (bisect probe fuel left right result) := by
  induction fuel generalizing left right result with
  | zero => exact start
  | succ fuel ih =>
    rw [bisect]
    split
    · obtain ⟨mid, midEq⟩ : ∃ mid : Nat, left + (right - left) / 2 = mid :=
        ⟨(left + (right - left) / 2).toNat, by omega⟩
      simp only [midEq, Int.toNat_natCast]
      cases found : probe mid with
      | eq => exact hit mid (by omega) (by rw [found]; decide)
      | lt => exact ih _ right _ (by omega) high (hit mid (by omega) (by rw [found]; decide))
      | gt => exact ih left _ result low (by omega) start
    · exact start

end KafGo.Lib
