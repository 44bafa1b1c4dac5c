import KafGo.Storage.Layout

/-!
# Walking the batch headers of a file

The header walk visits the complete batches of a file in order and passes those from an offset on to its
callback. Bytes that a write left unfinished at the end of the file are not visited.
-/

namespace KafGo.Storage
open Lib

def StoredBatch.header (f : StoredBatch) : BatchHeader := headerAt (slice f.data 0 headerSizeWithProducerInfo)

theorem StoredBatch.header_base (f : StoredBatch) : f.header.baseOffset = f.base :=
  f.header_baseOffset (by decide)

def StoredBatch.reaches (fromOffset : Int) (f : StoredBatch) : Bool := decide (fromOffset ≤ f.base)

/-- The bytes of a write that did not finish: what they declare as the length of their batch is not
there. -/
def Torn (tail : Bytes) : Prop :=
  tail.length < 12 ∨
    (tail.length < 12 + uint32At tail offsetBatchLength ∧ uint32At tail offsetBatchLength < 2 ^ 31)

theorem torn_nil : Torn [] := Or.inl (by decide)

theorem torn_incomplete {tail : Bytes} (torn : Torn tail) : Incomplete tail := by
  rcases torn with short | beyond
  · exact Or.inl (by simp only [headerSizeWithDelta]; omega)
  · exact Or.inr beyond

theorem torn_take (f : StoredBatch) {n : Nat} (part : n < f.length) : Torn (f.data.take n) := by
  have short := f.short
  have size : (f.data.take n).length = n := by
    rw [List.length_take]
    exact Nat.min_eq_left (Nat.le_of_lt part)
  by_cases header : n < 12
  · exact Or.inl (by omega)
  · have declared : uint32At (f.data.take n) offsetBatchLength = f.length - 12 :=
      f.header_batchLength (n := n) (by omega)
    right
    rw [declared, size]
    unfold StoredBatch.length at part ⊢
    omega

theorem torn_declared {before tail buf : Bytes} {n : Nat} (torn : Torn tail) (long : 12 ≤ n)
    (read : readAt (before ++ tail) before.length n = some buf) :
    ((before ++ tail).length : Int) < before.length + (12 + int32At buf offsetBatchLength) := by
  obtain ⟨bytes, inside⟩ := read_tail read
  rcases torn with short | ⟨beyond, small⟩
  · omega
  · have declared : uint32At buf offsetBatchLength = uint32At tail offsetBatchLength := by
      rw [bytes, uint32At_slice (by simpa [offsetBatchLength] using long), Nat.zero_add]
    rw [int32At, declared, signed_of_lt small, List.length_append]
    omega

theorem not_torn_batch (f : StoredBatch) (rest : Bytes) : ¬ Torn (f.data ++ rest) := by
  have long := f.long
  have declared : uint32At (f.data ++ rest) offsetBatchLength = f.data.length - 12 := by
    rw [uint32At_append (by simp only [offsetBatchLength]; omega), f.batchLength]
  rintro (short | ⟨beyond, _⟩)
  · rw [List.length_append] at short
    omega
  · rw [declared, List.length_append] at beyond
    omega

/-- The bytes of a file determine its batches and its torn bytes. -/
theorem bytesOf_torn_inj {fs gs : List StoredBatch} {tail tail' : Bytes} (torn : Torn tail) (torn' : Torn tail')
    (same : bytesOf fs ++ tail = bytesOf gs ++ tail') : fs = gs ∧ tail = tail' := by
  induction fs generalizing gs with
  | nil =>
    cases gs with
    | nil => exact ⟨rfl, same⟩
    | cons g gs =>
      rw [bytesOf_nil, List.nil_append, bytesOf_cons, List.append_assoc] at same
      rw [same] at torn
      exact absurd torn (not_torn_batch g _)
  | cons f fs ih =>
    cases gs with
    | nil =>
      rw [bytesOf_nil, List.nil_append, bytesOf_cons, List.append_assoc] at same
      rw [← same] at torn'
      exact absurd torn' (not_torn_batch f _)
    | cons g gs =>
      rw [bytesOf_cons, bytesOf_cons, List.append_assoc, List.append_assoc] at same
      have long := f.long
      have long' := g.long
      have length : f.data.length = g.data.length := by
        have declared := congrArg (fun bytes => uint32At bytes offsetBatchLength) same
        rw [uint32At_append (by simp only [offsetBatchLength]; omega),
          uint32At_append (by simp only [offsetBatchLength]; omega), f.batchLength, g.batchLength] at declared
        omega
      obtain ⟨data, rest⟩ := List.append_inj same length
      obtain ⟨rfl, tails⟩ := ih rest
      exact ⟨by rw [storedBatch_ext data], tails⟩

section Walk

variable {σ ε : Type} {fn : σ → BatchHeader → Except ε σ} {fromOffset : Int} {tail : Bytes}

theorem walkHeadersTurn_batch {fs pre post : List StoredBatch} {f : StoredBatch} (split : fs = pre ++ f :: post)
    (st : σ) :
    walkHeadersTurn (bytesOf fs ++ tail) fromOffset fn (bytesOf pre).length st =
      if f.reaches fromOffset then
        match fn st f.header with
        | .error e => .fail (some e)
        | .ok st => .next f.length st
      else .next f.length st := by
  have header := read_header [] tail split (n := headerSizeWithProducerInfo) (by decide)
  have room := header_room [] tail split
  have long := f.length_pos
  simp only [List.nil_append, List.length_nil, Int.natCast_zero, Int.zero_add] at header room
  unfold walkHeadersTurn
  rw [length_bytesOf, header]
  dsimp only
  rw [f.header_totalLen (by decide), if_neg (by omega)]
  change (if f.header.baseOffset ≥ fromOffset then _ else _) = _
  rw [f.header_base]
  unfold StoredBatch.reaches
  by_cases later : fromOffset ≤ f.base
  · rw [if_pos later, if_pos (decide_eq_true later)]
    rfl
  · rw [if_neg (by omega), if_neg (by simpa using later)]

theorem walkHeadersTurn_torn {before : Bytes} (torn : Torn tail) (st : σ) :
    walkHeadersTurn (before ++ tail) fromOffset fn before.length st = .stop st := by
  unfold walkHeadersTurn
  cases read : readAt (before ++ tail) before.length headerSizeWithProducerInfo with
  | none => rfl
  | some buf =>
    have beyond := torn_declared torn (by decide) read
    dsimp only
    rw [if_pos (by omega)]

/-- From a batch boundary on, the callback sees the remaining batches in order up to its first error. -/
theorem walkHeaders_rest (fn : σ → BatchHeader → Except ε σ) (fromOffset : Int) (torn : Torn tail)
    (rest : List StoredBatch) :
    ∀ (pre : List StoredBatch) (st : σ) (fuel : Nat), rest.length < fuel →
      walk none headerSizeWithProducerInfo (bytesOf (pre ++ rest) ++ tail).length
          (walkHeadersTurn (bytesOf (pre ++ rest) ++ tail) fromOffset fn) fuel (bytesOf pre).length st =
        ((rest.filter (StoredBatch.reaches fromOffset)).foldlM (fun st f => fn st f.header) st).mapError some := by
  induction rest with
  | nil =>
    intro pre st fuel enough
    obtain ⟨fuel, rfl⟩ : ∃ n, fuel = n + 1 := ⟨fuel - 1, by omega⟩
    rw [List.append_nil]
    by_cases room : ((bytesOf pre).length : Int) + headerSizeWithProducerInfo ≤ (bytesOf pre ++ tail).length
    · exact walk_stop room (walkHeadersTurn_torn torn st)
    · exact walk_exit (by omega)
  | cons f rest ih =>
    intro pre st fuel enough
    obtain ⟨fuel, rfl⟩ : ∃ n, fuel = n + 1 := ⟨fuel - 1, by omega⟩
    have room : ((bytesOf pre).length : Int) + headerSizeWithProducerInfo ≤
        (bytesOf (pre ++ f :: rest) ++ tail).length := by
      have long := f.long
      simp only [headerSizeWithProducerInfo, bytesOf_append, bytesOf_cons, List.length_append]
      omega
    have turn := @walkHeadersTurn_batch σ ε fn fromOffset tail _ _ _ _ (Eq.refl (pre ++ f :: rest)) st
    have onward : ∀ st', walk none headerSizeWithProducerInfo (bytesOf (pre ++ f :: rest) ++ tail).length
          (walkHeadersTurn (bytesOf (pre ++ f :: rest) ++ tail) fromOffset fn) fuel
          ((bytesOf pre).length + f.length) st' =
        ((rest.filter (StoredBatch.reaches fromOffset)).foldlM (fun st f => fn st f.header) st').mapError some := by
      intro st'
      have position : ((bytesOf pre).length : Int) + f.length = (bytesOf (pre ++ [f])).length := by
        simp [StoredBatch.length]
      have walked := ih (pre ++ [f]) st' fuel (by simp at enough; omega)
      rw [List.append_assoc, List.singleton_append] at walked
      rw [position]
      exact walked
    by_cases later : f.reaches fromOffset = true
    · rw [if_pos later] at turn
      rw [List.filter_cons_of_pos later, List.foldlM_cons]
      cases called : fn st f.header with
      | error e =>
        rw [called] at turn
        exact walk_fail room turn
      | ok st' =>
        rw [called] at turn
        rw [walk_next room turn, onward st']
        rfl
    · rw [if_neg later] at turn
      rw [walk_next room turn, onward st, List.filter_cons_of_neg later]

theorem walkHeaders_batches (fn : σ → BatchHeader → Except ε σ) (fromOffset : Int) (torn : Torn tail)
    (fs : List StoredBatch) (st : σ) :
    walkHeaders (bytesOf fs ++ tail) fromOffset fn st =
      ((fs.filter (StoredBatch.reaches fromOffset)).foldlM (fun st f => fn st f.header) st).mapError some := by
  have enough : fs.length < (bytesOf fs ++ tail).length + 1 := by
    have bound := length_le_bytesOf fs
    rw [List.length_append]
    omega
  exact walkHeaders_rest fn fromOffset torn fs [] st _ enough

theorem walkBatchHeadersFrom_active (c : CommitLog) (fn : σ → BatchHeader → Except ε σ) (st : σ) :
    c.walkBatchHeadersFrom c.activeSegment.baseOffset fn st =
      c.activeSegment.walkBatchHeaders c.activeSegment.baseOffset fn st := by
  have size : c.segments.length = c.sealedSegments.length + 1 := by simp [CommitLog.segments]
  have last : c.segments.getD c.sealedSegments.length c.activeSegment = c.activeSegment := by
    simp [CommitLog.segments]
  have start : c.walkStart c.activeSegment.baseOffset = c.sealedSegments.length := by
    unfold CommitLog.walkStart
    rw [size, List.range_succ, List.reverse_append, List.reverse_singleton, List.singleton_append,
      List.find?_cons_of_pos (by rw [last]; simp)]
    rfl
  have only : c.segments.drop c.sealedSegments.length = [c.activeSegment] := by simp [CommitLog.segments]
  unfold CommitLog.walkBatchHeadersFrom
  rw [start, only, List.foldlM_cons]
  exact bind_pure _

end Walk

end KafGo.Storage
