import Mathlib.Tactic.Common

/-!
# Maps in the order of their keys

A map as the list of its entries with ascending keys, so that two maps with the same entries are equal.
-/

namespace KafGo.Lib

@[ext]
structure SortedMap (κ β : Type) [LT κ] where
  entries : List (κ × β)
  sorted : entries.Pairwise (·.1 < ·.1)
  deriving DecidableEq

namespace SortedMap

variable {κ β : Type} [LT κ]

def empty : SortedMap κ β := ⟨[], List.Pairwise.nil⟩

variable [DecidableLT κ] [DecidableEq κ]

def insertEntry (k : κ) (v : β) : List (κ × β) → List (κ × β)
  | [] => [(k, v)]
  | e :: rest =>
    if k < e.1 then (k, v) :: e :: rest else if k = e.1 then (k, v) :: rest else e :: insertEntry k v rest

theorem mem_insertEntry {k : κ} {v : β} {entries : List (κ × β)} {e : κ × β} (member : e ∈ insertEntry k v entries) :
    e = (k, v) ∨ e ∈ entries := by
  induction entries with
  | nil => exact .inl (List.mem_singleton.mp member)
  | cons first rest ih =>
    unfold insertEntry at member
    split at member
    · exact List.mem_cons.mp member
    · split at member
      · exact (List.mem_cons.mp member).imp_right (List.mem_cons_of_mem _)
      · rcases List.mem_cons.mp member with rfl | later
        · exact .inr List.mem_cons_self
        · exact (ih later).imp_right (List.mem_cons_of_mem _)

theorem insertEntry_last [Std.Asymm (α := κ) (· < ·)] {k : κ} {entries : List (κ × β)} (last : ∀ e ∈ entries, e.1 < k)
    (v : β) : insertEntry k v entries = entries ++ [(k, v)] := by
  induction entries with
  | nil => rfl
  | cons first rest ih =>
    have below := last first List.mem_cons_self
    have differ : k ≠ first.1 := by
      rintro rfl
      exact Std.Asymm.asymm _ _ below below
    rw [insertEntry, if_neg (Std.Asymm.asymm _ _ below), if_neg differ,
      ih fun e inside => last e (List.mem_cons_of_mem _ inside), List.cons_append]

variable [Trans (α := κ) (· < ·) (· < ·) (· < ·)] [Std.Trichotomous (α := κ) (· < ·)]

theorem sorted_insertEntry (k : κ) (v : β) {entries : List (κ × β)} (sorted : entries.Pairwise (·.1 < ·.1)) :
    (insertEntry k v entries).Pairwise (·.1 < ·.1) := by
  induction entries with
  | nil => exact List.pairwise_singleton _ _
  | cons first rest ih =>
    obtain ⟨least, tail⟩ := List.pairwise_cons.mp sorted
    unfold insertEntry
    split
    · rename_i below
      refine List.pairwise_cons.mpr ⟨?_, sorted⟩
      intro e inside
      rcases List.mem_cons.mp inside with rfl | later
      · exact below
      · exact Trans.trans below (least e later)
    · rename_i above
      split
      · rename_i same
        exact List.pairwise_cons.mpr ⟨fun e later => same ▸ least e later, tail⟩
      · rename_i differ
        refine List.pairwise_cons.mpr ⟨?_, ih tail⟩
        intro e inside
        rcases mem_insertEntry inside with rfl | later
        · by_contra notBelow
          exact differ (Std.Trichotomous.trichotomous _ _ above notBelow)
        · exact least e later

def insert (m : SortedMap κ β) (k : κ) (v : β) : SortedMap κ β :=
  ⟨insertEntry k v m.entries, sorted_insertEntry k v m.sorted⟩

theorem insert_last [Std.Asymm (α := κ) (· < ·)] {m : SortedMap κ β} {k : κ} (last : ∀ e ∈ m.entries, e.1 < k) (v : β) :
    (m.insert k v).entries = m.entries ++ [(k, v)] := insertEntry_last last v

end SortedMap

end KafGo.Lib
