import Mathlib.Data.List.Nodup
import Mathlib.Tactic.Common

/-!
# Result channels

A request gets a channel of its own, is parked with an owner until somebody sends its result, and waits on the
channel. `Conserved` says that no request is lost: every channel is parked or has had exactly one result.
-/

namespace KafGo.Lib

variable {ρ : Type}

/-- A channel with everything that was ever sent to it. -/
structure Mailbox (ρ : Type) where
  owner : Nat
  sent : List ρ
  deriving DecidableEq

def send (boxes : List (Mailbox ρ)) (k : Nat) (r : ρ) : List (Mailbox ρ) :=
  boxes.modify k fun box => { box with sent := box.sent ++ [r] }

def sendAll (boxes : List (Mailbox ρ)) (letters : List (Nat × ρ)) : List (Mailbox ρ) :=
  letters.foldl (fun boxes letter => send boxes letter.1 letter.2) boxes

theorem send_other {boxes : List (Mailbox ρ)} {k j : Nat} (other : k ≠ j) (r : ρ) :
    (send boxes k r)[j]? = boxes[j]? := by
  unfold send
  exact List.getElem?_modify_ne _ _ other

theorem send_same {boxes : List (Mailbox ρ)} {k : Nat} {box : Mailbox ρ} (found : boxes[k]? = some box) (r : ρ) :
    (send boxes k r)[k]? = some { box with sent := box.sent ++ [r] } := by
  unfold send
  rw [List.getElem?_modify_eq, found]
  rfl

theorem sendAll_other {letters : List (Nat × ρ)} {j : Nat} (other : j ∉ letters.map Prod.fst)
    (boxes : List (Mailbox ρ)) : (sendAll boxes letters)[j]? = boxes[j]? := by
  induction letters generalizing boxes with
  | nil => rfl
  | cons letter letters ih =>
    rw [List.map_cons, List.mem_cons, not_or] at other
    exact (ih other.2 _).trans (send_other (Ne.symm other.1) letter.2)

theorem sendAll_mem {letters : List (Nat × ρ)} (distinct : (letters.map Prod.fst).Nodup) {k : Nat} {r : ρ}
    (written : (k, r) ∈ letters) {boxes : List (Mailbox ρ)} {box : Mailbox ρ} (found : boxes[k]? = some box) :
    (sendAll boxes letters)[k]? = some { box with sent := box.sent ++ [r] } := by
  induction letters generalizing boxes with
  | nil => cases written
  | cons letter letters ih =>
    rw [List.map_cons, List.nodup_cons] at distinct
    rcases List.mem_cons.mp written with rfl | later
    · exact (sendAll_other distinct.1 _).trans (send_same found r)
    · apply ih distinct.2 later
      rw [send_other, found]
      rintro rfl
      exact distinct.1 (List.mem_map.mpr ⟨_, later, rfl⟩)

/-- Parked channels are empty, belong to their owner and are parked once, and every other channel has had one
result. -/
structure Conserved (boxes : List (Mailbox ρ)) (parked : Nat → List Nat) : Prop where
  distinct : ∀ o, (parked o).Nodup
  empty : ∀ o, ∀ k ∈ parked o, boxes[k]? = some ⟨o, []⟩
  settled : ∀ k box, boxes[k]? = some box → box.sent.length = 1 ∨ k ∈ parked box.owner

variable {boxes : List (Mailbox ρ)} {parked : Nat → List Nat}

theorem found_append {box new : Mailbox ρ} {k : Nat} (found : (boxes ++ [new])[k]? = some box) :
    boxes[k]? = some box ∨ (k = boxes.length ∧ box = new) := by
  rcases Nat.lt_or_ge k boxes.length with old | late
  · rw [List.getElem?_append_left old] at found
    exact Or.inl found
  · rw [List.getElem?_append_right late] at found
    obtain ⟨first, same⟩ := List.getElem?_eq_some_iff.mp found
    simp only [List.length_singleton] at first
    simp only [List.getElem_singleton] at same
    exact Or.inr ⟨by omega, same.symm⟩

namespace Conserved

theorem lt (conserved : Conserved boxes parked) {o k : Nat} (member : k ∈ parked o) : k < boxes.length :=
  (List.getElem?_eq_some_iff.mp (conserved.empty o k member)).1

theorem empty_append (conserved : Conserved boxes parked) {o k : Nat} (member : k ∈ parked o) (new : Mailbox ρ) :
    (boxes ++ [new])[k]? = some ⟨o, []⟩ := by
  rw [List.getElem?_append_left (conserved.lt member)]
  exact conserved.empty o k member

theorem park (conserved : Conserved boxes parked) (o : Nat) :
    Conserved (boxes ++ [⟨o, []⟩]) (Function.update parked o (parked o ++ [boxes.length])) where
  distinct o' := by
    by_cases same : o' = o
    · subst same
      rw [Function.update_self]
      apply List.nodup_append.mpr
      refine ⟨conserved.distinct o', List.nodup_singleton _, ?_⟩
      intro k old k' new equal
      have bound := conserved.lt old
      rw [List.mem_singleton] at new
      omega
    · rw [Function.update_of_ne same]
      exact conserved.distinct o'
  empty o' k member := by
    by_cases same : o' = o
    · subst same
      rw [Function.update_self] at member
      rcases List.mem_append.mp member with inside | new
      · exact conserved.empty_append inside _
      · rw [List.mem_singleton.mp new, List.getElem?_append_right (Nat.le_refl _), Nat.sub_self]
        rfl
    · rw [Function.update_of_ne same] at member
      exact conserved.empty_append member _
  settled k box found := by
    rcases found_append found with old | ⟨rfl, rfl⟩
    · apply (conserved.settled k box old).imp_right
      intro member
      by_cases same : box.owner = o
      · rw [same, Function.update_self]
        exact List.mem_append_left _ (same ▸ member)
      · rwa [Function.update_of_ne same]
    · right
      rw [Function.update_self]
      exact List.mem_append_right _ (List.mem_singleton_self _)

theorem reply (conserved : Conserved boxes parked) (o : Nat) (r : ρ) : Conserved (boxes ++ [⟨o, [r]⟩]) parked where
  distinct := conserved.distinct
  empty o' k member := conserved.empty_append member _
  settled k box found := by
    rcases found_append found with old | ⟨rfl, rfl⟩
    · exact conserved.settled k box old
    · exact Or.inl rfl

theorem answer (conserved : Conserved boxes parked) {o : Nat} {letters : List (Nat × ρ)}
    (all : letters.map Prod.fst = parked o) : Conserved (sendAll boxes letters) (Function.update parked o []) where
  distinct o' := by
    by_cases same : o' = o
    · rw [same, Function.update_self]
      exact List.nodup_nil
    · rw [Function.update_of_ne same]
      exact conserved.distinct o'
  empty o' k member := by
    by_cases same : o' = o
    · rw [same, Function.update_self] at member
      cases member
    · rw [Function.update_of_ne same] at member
      have old := conserved.empty o' k member
      rw [sendAll_other, old]
      intro written
      rw [all] at written
      cases old.symm.trans (conserved.empty o k written)
      exact same rfl
  settled k box found := by
    by_cases written : k ∈ letters.map Prod.fst
    · left
      obtain ⟨⟨k', r⟩, member, rfl⟩ := List.mem_map.mp written
      have opened := conserved.empty o k' (all ▸ written)
      rw [sendAll_mem (all ▸ conserved.distinct o) member opened] at found
      rw [← Option.some.inj found]
      rfl
    · rw [sendAll_other written] at found
      apply (conserved.settled k box found).imp_right
      intro member
      by_cases same : box.owner = o
      · rw [same, ← all] at member
        exact absurd member written
      · rwa [Function.update_of_ne same]

end Conserved

end KafGo.Lib
