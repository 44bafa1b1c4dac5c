import KafGo.Storage.Index
import Mathlib.Data.List.Induction

/-!
# Runs of the offset index

An index that appends have filled in order lists its entries, however often it had to grow. The lookup finds the floor
of an offset as long as the distance to the base offset is an `int64`.
-/

namespace KafGo.Storage
open Lib

namespace OffsetIndex

def appendAll (idx : OffsetIndex) (entries : List (Int × Int)) : Except LogError OffsetIndex :=
  entries.foldlM (fun idx e => idx.append e.1 e.2) idx

end OffsetIndex

/-- Offsets and positions that an index with the base offset can keep. -/
structure Indexable (base : Int) (entries : List (Int × Int)) : Prop where
  increasing : entries.Pairwise fun a b => a.1 < b.1
  offsets : ∀ e ∈ entries, base ≤ e.1 ∧ e.1 < base + 2 ^ 32
  positions : ∀ e ∈ entries, 0 ≤ e.2 ∧ e.2 < 2 ^ 32

/-- The position of the entry with the largest offset not above `offset`, or zero if there is none. -/
def FloorOf (entries : List (Int × Int)) (offset position : Int) : Prop :=
  (∃ e ∈ entries, e.1 ≤ offset ∧ (∀ other ∈ entries, other.1 ≤ offset → other.1 ≤ e.1) ∧ position = e.2) ∨
    (∀ e ∈ entries, offset < e.1) ∧ position = 0

/-- The index holds the entries, inside its mapping and in their order. -/
structure OffsetIndex.Lists (idx : OffsetIndex) (base : Int) (entries : List (Int × Int)) : Prop where
  mapped : idx.Mapped
  based : idx.baseOffset = base
  count : idx.entryCount = entries.length
  entry : ∀ i e, entries[i]? = some e → (idx.entryOffset i : Int) = e.1 - base ∧ (idx.entryPosition i : Int) = e.2

theorem unsigned_small {x : Int} (low : 0 ≤ x) (high : x < 2 ^ 32) : (unsigned 32 x : Int) = x := by
  unfold unsigned
  omega

variable {base : Int} {entries : List (Int × Int)} {file : IndexFile}

theorem Indexable.init {e : Int × Int} (indexable : Indexable base (entries ++ [e])) : Indexable base entries where
  increasing := (List.pairwise_append.mp indexable.increasing).1
  offsets e member := indexable.offsets e (List.mem_append_left _ member)
  positions e member := indexable.positions e (List.mem_append_left _ member)

theorem append_lists {idx : OffsetIndex} {e : Int × Int} (lists : idx.Lists base entries)
    (indexable : Indexable base (entries ++ [e])) :
    ∃ idx', idx.append e.1 e.2 = .ok idx' ∧ idx'.Lists base (entries ++ [e]) := by
  obtain ⟨idx', appended, mapped, based, count, offset, position, kept⟩ := OffsetIndex.append_ok lists.mapped e.1 e.2
  have last : e ∈ entries ++ [e] := List.mem_append_right _ (List.mem_singleton_self e)
  obtain ⟨low, high⟩ := indexable.offsets e last
  obtain ⟨low', high'⟩ := indexable.positions e last
  refine ⟨idx', appended, mapped, based.trans lists.based, ?_, ?_⟩
  · rw [count, lists.count, List.length_append, List.length_singleton]
  · intro i e' found
    rcases Nat.lt_or_ge i entries.length with older | newest
    · rw [List.getElem?_append_left older] at found
      obtain ⟨sameOffset, samePosition⟩ := kept i (by rw [lists.count]; exact older)
      rw [sameOffset, samePosition]
      exact lists.entry i e' found
    · obtain rfl : i = entries.length := by
        have inside := (List.getElem?_eq_some_iff.mp found).1
        rw [List.length_append, List.length_singleton] at inside
        omega
      rw [List.getElem?_concat_length, Option.some.injEq] at found
      subst found
      rw [lists.count, lists.based] at offset
      rw [lists.count] at position
      rw [offset, position]
      exact ⟨unsigned_small (by omega) (by omega), unsigned_small low' high'⟩

theorem newOffsetIndex_lists (whole : file.size = 0 ∨ entrySize ≤ file.size) (base : Int) :
    (newOffsetIndex file base).Lists base [] := by
  have mapped := OffsetIndex.newOffsetIndex_mapped whole base
  unfold newOffsetIndex at mapped ⊢
  split
  · rename_i empty
    rw [if_pos empty] at mapped
    exact ⟨mapped, rfl, rfl, fun i e found => by cases found⟩
  · rename_i filled
    rw [if_neg filled] at mapped
    exact ⟨mapped, rfl, rfl, fun i e found => by cases found⟩

theorem appendAll_lists (whole : file.size = 0 ∨ entrySize ≤ file.size) (indexable : Indexable base entries) :
    ∃ idx, (newOffsetIndex file base).appendAll entries = .ok idx ∧ idx.Lists base entries := by
  induction entries using List.reverseRecOn with
  | nil => exact ⟨_, rfl, newOffsetIndex_lists whole base⟩
  | append_singleton entries e ih =>
    obtain ⟨idx, filled, lists⟩ := ih indexable.init
    obtain ⟨idx', appended, lists'⟩ := append_lists lists indexable
    refine ⟨idx', ?_, lists'⟩
    unfold OffsetIndex.appendAll at filled ⊢
    rw [List.foldlM_append, filled]
    show [e].foldlM (fun idx e => idx.append e.1 e.2) idx = _
    rw [List.foldlM_cons, appended]
    rfl

/-! ### Looking up -/

section Floor

variable {idx : OffsetIndex} {base : Int} {entries : List (Int × Int)} (lists : idx.Lists base entries)
  (indexable : Indexable base entries)

include lists indexable

theorem lists_increasing {i j : Nat} (before : i < j) (inside : j < idx.entryCount) :
    idx.entryOffset i < idx.entryOffset j := by
  rw [lists.count] at inside
  have order := List.pairwise_iff_getElem.mp indexable.increasing i j (by omega) inside before
  have first := (lists.entry i _ (List.getElem?_eq_getElem (by omega))).1
  have second := (lists.entry j _ (List.getElem?_eq_getElem inside)).1
  omega

theorem lookup_floorOf (offset : Int) : FloorOf entries (base + wrapSigned 64 (offset - base)) (idx.lookup offset) := by
  -- the first k entries are the ones that are not above the offset
  obtain ⟨k, inside, floor⟩ :=
    exists_floor (fun i => (idx.entryOffset i : Int) ≤ idx.relativeOffset offset) idx.entryCount
    (fun i j before below low => by have := lists_increasing lists indexable before below; omega)
  have low : ∀ i e, entries[i]? = some e → (e.1 ≤ base + wrapSigned 64 (offset - base) ↔ i < k) := by
    intro i e found
    have below : i < idx.entryCount := by rw [lists.count]; exact (List.getElem?_eq_some_iff.mp found).1
    rw [← floor i below, (lists.entry i e found).1, OffsetIndex.relativeOffset, lists.based]
    omega
  rw [OffsetIndex.lookup_floor inside (fun i j => lists_increasing lists indexable) floor]
  by_cases none : k = 0
  · rw [if_pos none]
    refine .inr ⟨fun e member => ?_, rfl⟩
    obtain ⟨i, found⟩ := List.mem_iff_getElem?.mp member
    have above := low i e found
    omega
  · have last : k - 1 < entries.length := by rw [← lists.count]; omega
    have found := List.getElem?_eq_getElem last
    rw [if_neg none]
    refine .inl ⟨_, List.getElem_mem last, (low _ _ found).mpr (by omega), ?_, (lists.entry _ _ found).2⟩
    intro other member below
    obtain ⟨i, here⟩ := List.mem_iff_getElem?.mp member
    have early := (low i other here).mp below
    rcases Nat.lt_or_ge i (k - 1) with before | same
    · have order := lists_increasing lists indexable before (by rw [lists.count]; exact last)
      have first := (lists.entry i other here).1
      have second := (lists.entry _ _ found).1
      omega
    · obtain rfl : i = k - 1 := by omega
      rw [found, Option.some.injEq] at here
      rw [here]

end Floor

theorem lookup_wraps {idx : OffsetIndex} {base offset : Int64} (lists : idx.Lists base.toInt [(base.toInt, 7)])
    (indexable : Indexable base.toInt [(base.toInt, 7)])
    (far : ¬ (-2 ^ 63 ≤ offset.toInt - base.toInt ∧ offset.toInt - base.toInt < 2 ^ 63)) :
    ¬ FloorOf [(base.toInt, 7)] offset.toInt (idx.lookup offset.toInt) := by
  have lowest := offset.le_toInt
  have highest := offset.toInt_lt
  have lowest' := base.le_toInt
  have highest' := base.toInt_lt
  have found := lookup_floorOf lists indexable offset.toInt
  generalize idx.lookup offset.toInt = position at found ⊢
  unfold FloorOf at found ⊢
  simp only [List.mem_singleton, exists_eq_left, forall_eq] at found ⊢
  rcases Int.lt_or_le (offset.toInt - base.toInt) 0 with below | above
  · -- the distance comes back as a large one, and the entry is found
    have moved : wrapSigned 64 (offset.toInt - base.toInt) = offset.toInt - base.toInt + 2 ^ 64 :=
      wrapSigned_moved (by decide) (by omega) (by omega) ⟨-1, by omega⟩
    rw [moved] at found
    omega
  · -- the distance comes back as a negative one, and the entry is missed
    have moved : wrapSigned 64 (offset.toInt - base.toInt) = offset.toInt - base.toInt - 2 ^ 64 :=
      wrapSigned_moved (by decide) (by omega) (by omega) ⟨1, by omega⟩
    rw [moved] at found
    omega

/-- Entries in order are kept inside the mapping, whatever the size of the file at first. A lookup is right about all of
them exactly if the distance of its offset to the base offset is an `int64`. -/
theorem lookup_floor_iff (whole : file.size = 0 ∨ entrySize ≤ file.size) (base offset : Int64) :
    (∀ entries, Indexable base.toInt entries →
      ∃ idx, (newOffsetIndex file base.toInt).appendAll entries = .ok idx ∧ idx.Lists base.toInt entries) ∧
    ((∀ entries idx, Indexable base.toInt entries → (newOffsetIndex file base.toInt).appendAll entries = .ok idx →
        FloorOf entries offset.toInt (idx.lookup offset.toInt)) ↔
      -2 ^ 63 ≤ offset.toInt - base.toInt ∧ offset.toInt - base.toInt < 2 ^ 63) := by
  refine ⟨fun entries => appendAll_lists whole, ?_, ?_⟩
  · intro right
    have single : Indexable base.toInt [(base.toInt, 7)] :=
      ⟨List.pairwise_singleton _ _, by simp, by simp⟩
    obtain ⟨idx, filled, lists⟩ := appendAll_lists whole single
    by_contra far
    exact lookup_wraps lists single far (right _ idx single filled)
  · rintro ⟨low, high⟩ entries idx indexable filled
    obtain ⟨idx', filled', lists⟩ := appendAll_lists whole indexable
    obtain rfl : idx = idx' := Except.ok.inj (filled.symm.trans filled')
    have found := lookup_floorOf lists indexable offset.toInt
    rwa [wrapSigned_fits (by decide) low high, add_sub_cancel] at found

/-- Three entries in a file with room for one, asked below the base offset, between two entries and behind the last. -/
theorem lookup_floor_three :
    Indexable 100 [(100, 7), (103, 1024), (104, 2048)] ∧
    ∃ idx, (newOffsetIndex ⟨fun _ => 255, 8⟩ 100).appendAll [(100, 7), (103, 1024), (104, 2048)] = .ok idx ∧
      FloorOf [(100, 7), (103, 1024), (104, 2048)] 99 (idx.lookup 99) ∧
      FloorOf [(100, 7), (103, 1024), (104, 2048)] 102 (idx.lookup 102) ∧
      FloorOf [(100, 7), (103, 1024), (104, 2048)] (2 ^ 63 - 1) (idx.lookup (2 ^ 63 - 1)) := by
  have indexable : Indexable 100 [(100, 7), (103, 1024), (104, 2048)] := ⟨by decide, by decide, by decide⟩
  have whole : (⟨fun _ => 255, 8⟩ : IndexFile).size = 0 ∨ entrySize ≤ (⟨fun _ => 255, 8⟩ : IndexFile).size := by decide
  obtain ⟨idx, filled, _⟩ := (lookup_floor_iff whole 100 99).1 _ indexable
  refine ⟨indexable, idx, filled, ?_, ?_, ?_⟩
  · exact (lookup_floor_iff whole 100 99).2.mpr (by decide) _ idx indexable filled
  · exact (lookup_floor_iff whole 100 102).2.mpr (by decide) _ idx indexable filled
  · exact (lookup_floor_iff whole 100 Int64.maxValue).2.mpr (by decide) _ idx indexable filled

/-- The smallest `int64` is far below the base offset 1, and the lookup returns the entry above it. -/
theorem lookup_smallest : (∀ e ∈ [((1 : Int), (7 : Int))], (-2 ^ 63 : Int) < e.1) ∧
    ((newOffsetIndex emptyIndexFile 1).appendAll [(1, 7)]).map (fun idx => idx.lookup (-2 ^ 63)) = .ok 7 := by
  decide +kernel

end KafGo.Storage
