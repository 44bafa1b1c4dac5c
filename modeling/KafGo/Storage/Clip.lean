import KafGo.Storage.Layout
import Mathlib.Data.List.TakeWhile

/-!
# Clipping a region

`ClipRegionToOffset` walks the batch headers of a region and keeps the leading batches that end below the
visible bound.
-/

namespace KafGo.Storage
open Lib

namespace RecordsRegion

def bytes (reg : RecordsRegion) : Bytes := slice reg.file reg.fileOffset.toNat reg.size.toNat

def clipTurn (reg : RecordsRegion) (maxVisible pos visibleSize : Int) : Move LogError Int :=
  if reg.size - pos < batchHeaderReadSize then .fail .unexpectedEOF
  else match readAt reg.file (reg.fileOffset + pos) batchHeaderReadSize with
    | none => .fail (.readHeader (reg.fileOffset + pos))
    | some hdr =>
      let baseOffset := int64At hdr offsetBaseOffset
      let batchLen := uint32At hdr offsetBatchLength
      let recordCount := uint32At hdr batchRecordCountOff
      if batchLen < batchLogOverhead ∨ recordCount = 0 then .fail .unexpectedEOF
      else
        let lastOffset := wrapSigned 64 (baseOffset + recordCount - 1)
        let batchTotal : Int := batchLogOverhead + batchLen
        if lastOffset ≥ maxVisible then .stop visibleSize
        else if pos + batchTotal > reg.size then .stop visibleSize
        else .next batchTotal (pos + batchTotal)

def clipRegionToOffset (reg : RecordsRegion) (maxVisible : Int) : Except LogError RecordsRegion :=
  if reg.size = 0 then .ok reg
  else (walk .diverges 1 reg.size (reg.clipTurn maxVisible) (reg.size.toNat + 1) 0 0).map
    fun visibleSize => { reg with size := visibleSize }

end RecordsRegion

def StoredBatch.visible (maxVisible : Int) (f : StoredBatch) : Bool :=
  decide ((f.base : Int) + f.count - 1 < maxVisible)

section Clip

variable {reg : RecordsRegion} {before tail : Bytes} {fs pre post : List StoredBatch} {f : StoredBatch}

theorem clipTurn_batch (file : reg.file = before ++ bytesOf fs ++ tail) (start : reg.fileOffset = before.length)
    (size : reg.size = (bytesOf fs).length) (split : fs = pre ++ f :: post) (maxVisible acc : Int) :
    reg.clipTurn maxVisible ((pre.map StoredBatch.length).sum : Nat) acc =
      if f.visible maxVisible then
        .next f.length (((pre.map StoredBatch.length).sum : Nat) + f.length)
      else .stop acc := by
  have long := f.length_pos
  have positive := f.positive
  have countFits := f.countFits
  have fits := f.fits
  have room : ((pre.map StoredBatch.length).sum : Int) + f.length ≤ reg.size := by
    rw [size, length_bytesOf, split]
    simp only [List.map_append, List.map_cons, List.sum_append, List.sum_cons]
    omega
  have last : wrapSigned 64 ((f.base : Int) + f.count - 1) = (f.base : Int) + f.count - 1 := by
    have exact_last : (f.base : Int) + f.count - 1 = ((f.base + f.count - 1 : Nat) : Int) := by omega
    rw [exact_last, wrapSigned_natCast (by decide) (by omega)]
  unfold RecordsRegion.clipTurn
  rw [if_neg (by simp only [batchHeaderReadSize]; omega), file, start,
    read_header before tail split (n := batchHeaderReadSize) (by decide)]
  dsimp only
  rw [f.header_baseOffset (by decide), f.header_batchLength (by decide), f.header_recordCount (by decide), last,
    if_neg (by simp only [batchLogOverhead]; omega)]
  have total : ((batchLogOverhead : Nat) : Int) + ((f.length - 12 : Nat) : Int) = f.length := by
    simp only [batchLogOverhead]
    omega
  rw [total]
  unfold StoredBatch.visible
  by_cases below : (f.base : Int) + f.count - 1 < maxVisible
  · rw [if_neg (by omega), if_neg (by omega), if_pos (decide_eq_true below)]
  · rw [if_pos (by omega), if_neg (by simpa using below)]

theorem clip_leading (reg : RecordsRegion) (file : reg.file = before ++ bytesOf fs ++ tail)
    (start : reg.fileOffset = before.length) (size : reg.size = (bytesOf fs).length) (maxVisible : Int) :
    reg.clipRegionToOffset maxVisible =
      .ok { reg with size := (bytesOf (fs.takeWhile (StoredBatch.visible maxVisible))).length } := by
  unfold RecordsRegion.clipRegionToOffset
  by_cases empty : reg.size = 0
  · have none : fs = [] := by
      have bound := length_le_bytesOf fs
      exact List.length_eq_zero_iff.mp (by omega)
    rw [if_pos empty, none, List.takeWhile_nil, bytesOf_nil, List.length_nil, Int.natCast_zero, ← empty]
  rw [if_neg empty]
  have kept := List.takeWhile_append_dropWhile (p := StoredBatch.visible maxVisible) (l := fs)
  generalize taken : fs.takeWhile (StoredBatch.visible maxVisible) = lead at kept ⊢
  generalize dropped : fs.dropWhile (StoredBatch.visible maxVisible) = rest at kept
  have enough : lead.length < reg.size.toNat + 1 := by
    have bound := length_le_bytesOf fs
    have shorter : lead.length ≤ fs.length := by rw [← kept]; simp
    omega
  obtain ⟨spare, fuelEq⟩ : ∃ spare, reg.size.toNat + 1 = spare + 1 + lead.length :=
    ⟨reg.size.toNat - lead.length, by omega⟩
  obtain ⟨acc, total, walked⟩ := walk_cross LogError.diverges 1 reg.size 0 (reg.clipTurn maxVisible) (spare + 1) 0
    StoredBatch.length (fun crossed acc => acc = ((crossed.map StoredBatch.length).sum : Nat)) lead rfl (by
      intro crossed f after acc inner total
      have split : fs = crossed ++ f :: (after ++ rest) := by rw [← kept, inner]; simp
      have visible : f.visible maxVisible = true := by
        apply List.mem_takeWhile_imp (l := fs)
        rw [taken, inner]
        simp
      have turn := clipTurn_batch file start size split maxVisible acc
      rw [if_pos visible] at turn
      have long := f.length_pos
      rw [Int.zero_add]
      refine ⟨?_, _, turn, by simp⟩
      rw [size, length_bytesOf, split]
      simp only [List.map_append, List.map_cons, List.sum_append, List.sum_cons]
      omega)
  rw [fuelEq, walked, total, Int.zero_add, ← length_bytesOf]
  cases rest with
  | nil =>
    rw [List.append_nil] at kept
    rw [walk_exit (by rw [size, kept]; omega)]
    rfl
  | cons f after =>
    have hidden : ¬ f.visible maxVisible = true := by
      have head : fs.dropWhile (StoredBatch.visible maxVisible) ≠ [] := by rw [dropped]; simp
      have first := List.head_dropWhile_not (StoredBatch.visible maxVisible) head
      simp only [dropped, List.head_cons] at first
      rw [first]
      decide
    have turn := clipTurn_batch file start size kept.symm maxVisible ((bytesOf lead).length : Int)
    rw [if_neg hidden, ← length_bytesOf] at turn
    have long := f.length_pos
    rw [walk_stop ?_ turn]
    · rfl
    · rw [size, ← kept]
      simp only [bytesOf_append, bytesOf_cons, List.length_append]
      unfold StoredBatch.length at long
      omega

theorem bytes_batches (file : reg.file = before ++ bytesOf fs ++ tail) (start : reg.fileOffset = before.length)
    (size : reg.size = (bytesOf fs).length) : reg.bytes = bytesOf fs := by
  unfold RecordsRegion.bytes
  rw [file, start, size, Int.toNat_natCast, Int.toNat_natCast, slice_append_left (by simp),
    show before.length = before.length + 0 from rfl, slice_append_right]
  simp [slice]

end Clip

end KafGo.Storage
