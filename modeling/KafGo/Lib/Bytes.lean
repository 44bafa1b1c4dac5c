import Mathlib.Data.List.Induction
import Mathlib.Tactic.Ring

/-!
# Bytes

Big-endian fields, two's complement, and positioned reads of a byte string.
-/

namespace KafGo.Lib

abbrev Bytes := List UInt8

def beNat (bs : Bytes) : Nat := bs.foldl (fun n b => n * 256 + b.toNat) 0

def beBytes : Nat → Nat → Bytes
  | 0, _ => []
  | w + 1, n => beBytes w (n / 256) ++ [UInt8.ofNat (n % 256)]

def signed (bits n : Nat) : Int :=
  if n < 2 ^ (bits - 1) then (n : Int) else (n : Int) - 2 ^ bits

def unsigned (bits : Nat) (x : Int) : Nat := (x % (2 ^ bits : Nat)).toNat

def wrapSigned (bits : Nat) (x : Int) : Int := signed bits (unsigned bits x)

def slice (bs : Bytes) (pos n : Nat) : Bytes := (bs.drop pos).take n

def readAt (file : Bytes) (pos : Int) (n : Nat) : Option Bytes :=
  if 0 ≤ pos ∧ pos + n ≤ file.length then some (slice file pos.toNat n) else none

/-- The largest allocation of the Go runtime on 64-bit systems. -/
def maxAlloc : Nat := 2 ^ 48

/-- The memory of a process that reads bytes: `free left` is the largest slice it can still get when `left` remains to
be read, whatever the runtime system adds to the size of its elements, and `mapBytes n` is what a map with room for `n`
entries takes. -/
class Memory where
  free : Bytes → Nat
  mapBytes : Nat → Nat

/-- A process that gets no slice of more than `bytes`. -/
@[reducible] def Memory.limited (bytes : Nat) : Memory := ⟨fun _ => bytes, fun _ => 0⟩

/-- Runs are about a process that gets what it asks for. One that does not is dead and takes no step. -/
instance ample : Memory := .limited maxAlloc

/-- `make` of `n` bytes is neither refused nor fatal. -/
def Allocates [Memory] (n : Nat) (left : Bytes) : Prop := n ≤ maxAlloc ∧ n ≤ Memory.free left
  deriving Decidable

theorem allocates_zero [Memory] (left : Bytes) : Allocates 0 left := ⟨Nat.zero_le _, Nat.zero_le _⟩

variable {n bits pos : Nat} {x : Int} {a b : Bytes}

theorem allocates_ample {left : Bytes} : Allocates n left ↔ n ≤ maxAlloc := and_self_iff

@[simp] theorem length_beBytes (w n : Nat) : (beBytes w n).length = w := by
  induction w generalizing n with
  | zero => rfl
  | succ w ih => simp [beBytes, ih]

theorem beNat_append_singleton (bs : Bytes) (b : UInt8) :
    beNat (bs ++ [b]) = beNat bs * 256 + b.toNat := by
  simp [beNat]

theorem beNat_beBytes (w n : Nat) : beNat (beBytes w n) = n % 256 ^ w := by
  induction w generalizing n with
  | zero => simp [beBytes, beNat, Nat.mod_one]
  | succ w ih =>
    have digit : (UInt8.ofNat (n % 256)).toNat = n % 256 := by simp
    rw [beBytes, beNat_append_singleton, ih, digit, pow_succ, mul_comm (256 ^ w), Nat.mod_mul]
    omega

theorem beNat_lt (bs : Bytes) : beNat bs < 256 ^ bs.length := by
  induction bs using List.reverseRecOn with
  | nil => simp [beNat]
  | append_singleton bs b ih =>
    have small : b.toNat < 256 := b.toNat_lt
    rw [beNat_append_singleton, List.length_append, List.length_singleton, pow_succ]
    omega

theorem beBytes_beNat (bs : Bytes) : beBytes bs.length (beNat bs) = bs := by
  induction bs using List.reverseRecOn with
  | nil => rfl
  | append_singleton bs b ih =>
    have small : b.toNat < 256 := b.toNat_lt
    rw [List.length_append, List.length_singleton, beBytes, beNat_append_singleton,
      show (beNat bs * 256 + b.toNat) / 256 = beNat bs by omega,
      show (beNat bs * 256 + b.toNat) % 256 = b.toNat by omega, ih, UInt8.ofNat_toNat]

theorem signed_of_lt (small : n < 2 ^ (bits - 1)) : signed bits n = n := if_pos small

theorem unsigned_natCast (bits n : Nat) : unsigned bits n = n % 2 ^ bits := by
  unfold unsigned
  rw [← Int.natCast_emod, Int.toNat_natCast]

theorem unsigned_lt (bits : Nat) (x : Int) : unsigned bits x < 2 ^ bits := by
  have positive : (0 : Int) < (2 ^ bits : Nat) := by exact_mod_cast Nat.two_pow_pos bits
  have lower := Int.emod_nonneg x (ne_of_gt positive)
  have upper := Int.emod_lt_of_pos x positive
  unfold unsigned
  omega

theorem beNat_unsigned (w : Nat) (x : Int) : beNat (beBytes w (unsigned (8 * w) x)) = unsigned (8 * w) x := by
  have power : 256 ^ w = 2 ^ (8 * w) := by rw [Nat.pow_mul]
  rw [beNat_beBytes, power, Nat.mod_eq_of_lt (unsigned_lt _ x)]

theorem wrapSigned_natCast (positive : 0 < bits) (small : n < 2 ^ (bits - 1)) :
    wrapSigned bits n = n := by
  have larger : 2 ^ (bits - 1) ≤ 2 ^ bits := Nat.pow_le_pow_right (by decide) (by omega)
  unfold wrapSigned
  rw [unsigned_natCast, Nat.mod_eq_of_lt (by omega), signed_of_lt small]

theorem signed_fits (positive : 0 < bits) (small : n < 2 ^ bits) :
    -(2 ^ (bits - 1) : Int) ≤ signed bits n ∧ signed bits n < (2 ^ (bits - 1) : Int) := by
  obtain ⟨k, rfl⟩ : ∃ k, bits = k + 1 := ⟨bits - 1, by omega⟩
  unfold signed
  rw [Nat.add_sub_cancel]
  have double : (2 : Int) ^ (k + 1) = 2 * 2 ^ k := by rw [pow_succ, mul_comm]
  have doubled : 2 ^ (k + 1) = 2 * 2 ^ k := by rw [pow_succ, mul_comm]
  have cast : ((2 ^ k : Nat) : Int) = 2 ^ k := by push_cast; rfl
  split <;> omega

theorem wrapSigned_fits (positive : 0 < bits) (lower : -(2 ^ (bits - 1) : Int) ≤ x)
    (upper : x < (2 ^ (bits - 1) : Int)) : wrapSigned bits x = x := by
  obtain ⟨k, rfl⟩ : ∃ k, bits = k + 1 := ⟨bits - 1, by omega⟩
  rw [Nat.add_sub_cancel] at lower upper
  have double : (2 : Int) ^ (k + 1) = 2 * 2 ^ k := by rw [pow_succ, mul_comm]
  have cast : ((2 ^ (k + 1) : Nat) : Int) = 2 ^ (k + 1) := by push_cast; rfl
  have castHalf : ((2 ^ k : Nat) : Int) = 2 ^ k := by push_cast; rfl
  unfold wrapSigned signed unsigned
  rw [Nat.add_sub_cancel]
  by_cases negative : x < 0
  · have shifted : x % ((2 ^ (k + 1) : Nat) : Int) = x + 2 ^ (k + 1) := by
      rw [cast, ← Int.add_emod_right]
      exact Int.emod_eq_of_lt (by omega) (by omega)
    rw [shifted, if_neg (by omega)]
    omega
  · rw [Int.emod_eq_of_lt (by omega) (by omega), if_pos (by omega)]
    omega

theorem wrapSigned_le (bits n : Nat) : wrapSigned bits n ≤ n := by
  have shorter : unsigned bits n ≤ n := by
    rw [unsigned_natCast]
    exact Nat.mod_le _ _
  have positive : (0 : Int) < 2 ^ bits := Int.pow_pos (by decide)
  unfold wrapSigned signed
  split <;> omega

theorem wrapSigned_int16 (n : Int16) : wrapSigned 16 n.toInt = n.toInt :=
  wrapSigned_fits (by decide) (Int16.le_toInt n) (Int16.toInt_lt n)

theorem wrapSigned_int32 (n : Int32) : wrapSigned 32 n.toInt = n.toInt :=
  wrapSigned_fits (by decide) (Int32.le_toInt n) (Int32.toInt_lt n)

theorem wrapSigned_int64 (n : Int64) : wrapSigned 64 n.toInt = n.toInt :=
  wrapSigned_fits (by decide) (Int64.le_toInt n) (Int64.toInt_lt n)

theorem wrapSigned_emod (bits : Nat) (x : Int) : wrapSigned bits x % (2 ^ bits : Nat) = x % (2 ^ bits : Nat) := by
  have positive : 0 < 2 ^ bits := Nat.two_pow_pos bits
  have cast : ((unsigned bits x : Nat) : Int) = x % (2 ^ bits : Nat) :=
    Int.toNat_of_nonneg (Int.emod_nonneg x (by omega))
  have power : ((2 ^ bits : Nat) : Int) = 2 ^ bits := by push_cast; rfl
  unfold wrapSigned signed
  split
  · rw [cast, Int.emod_emod]
  · rw [cast, ← power, Int.sub_emod_right, Int.emod_emod]

theorem wrapSigned_eq_iff {y : Int} :
    wrapSigned bits x = wrapSigned bits y ↔ ((2 ^ bits : Nat) : Int) ∣ x - y := by
  rw [Int.dvd_iff_emod_eq_zero, ← Int.emod_eq_emod_iff_emod_sub_eq_zero]
  constructor
  · intro same
    rw [← wrapSigned_emod, same, wrapSigned_emod]
  · intro same
    unfold wrapSigned unsigned
    rw [same]

theorem wrapSigned_moved {y : Int} (positive : 0 < bits) (low : -(2 ^ (bits - 1) : Int) ≤ y)
    (high : y < (2 ^ (bits - 1) : Int)) (multiple : ((2 ^ bits : Nat) : Int) ∣ x - y) : wrapSigned bits x = y := by
  rw [wrapSigned_eq_iff.mpr multiple, wrapSigned_fits positive low high]

theorem wrapSigned_eq_natCast_iff {a c : Nat} (positive : 0 < bits) (le : c ≤ a) :
    wrapSigned bits a = c ↔ c < 2 ^ (bits - 1) ∧ 2 ^ bits ∣ a - c := by
  have difference : ((2 ^ bits : Nat) : Int) ∣ (a : Int) - c ↔ 2 ^ bits ∣ a - c := by
    rw [← Int.natCast_sub le, Int.natCast_dvd_natCast]
  constructor
  · intro same
    have fits : wrapSigned bits a < 2 ^ (bits - 1) := (signed_fits positive (unsigned_lt bits a)).2
    have small : c < 2 ^ (bits - 1) := by
      rw [same] at fits
      exact_mod_cast fits
    refine ⟨small, difference.mp (wrapSigned_eq_iff.mp ?_)⟩
    rw [same, wrapSigned_natCast positive small]
  · rintro ⟨small, multiple⟩
    rw [wrapSigned_eq_iff.mpr (difference.mpr multiple), wrapSigned_natCast positive small]

theorem wrapSigned_add (bits : Nat) (x y : Int) :
    wrapSigned bits (wrapSigned bits x + y) = wrapSigned bits (x + y) := by
  rw [wrapSigned_eq_iff, Int.add_sub_add_right, Int.dvd_iff_emod_eq_zero, ← Int.emod_eq_emod_iff_emod_sub_eq_zero]
  exact wrapSigned_emod bits x

theorem slice_append_left (inside : pos + n ≤ a.length) :
    slice (a ++ b) pos n = slice a pos n := by
  unfold slice
  rw [List.drop_append_of_le_length (by omega), List.take_append_of_le_length (by simp; omega)]

theorem slice_append_right (a b : Bytes) (pos n : Nat) :
    slice (a ++ b) (a.length + pos) n = slice b pos n := by
  unfold slice
  rw [← List.drop_drop, List.drop_left]

theorem slice_skip {k : Nat} (size : a.length = k) (pos n : Nat) :
    slice (a ++ b) (k + pos) n = slice b pos n := by
  rw [← size]
  exact slice_append_right a b pos n

theorem slice_here (size : a.length = n) : slice (a ++ b) 0 n = a := by
  unfold slice
  rw [List.drop_zero, ← size, List.take_left]

theorem slice_slice {bs : Bytes} {off m : Nat} (inside : off + m ≤ n) :
    slice (slice bs pos n) off m = slice bs (pos + off) m := by
  unfold slice
  rw [List.drop_take, List.take_take, List.drop_drop, Nat.min_eq_left (by omega)]

theorem readAt_ok {file : Bytes} (inside : pos + n ≤ file.length) :
    readAt file pos n = some (slice file pos n) := by
  unfold readAt
  rw [if_pos ⟨by omega, by exact_mod_cast inside⟩, Int.toNat_natCast]

theorem readAt_some {file : Bytes} {pos : Int} {bs : Bytes} (read : readAt file pos n = some bs) :
    0 ≤ pos ∧ pos + n ≤ file.length ∧ bs = slice file pos.toNat n := by
  unfold readAt at read
  split at read
  · rename_i inside
    exact ⟨inside.1, inside.2, (Option.some.inj read).symm⟩
  · cases read

theorem readAt_middle (before middle after : Bytes) {k : Nat} (inside : k + n ≤ middle.length) :
    readAt (before ++ middle ++ after) ((before.length + k : Nat) : Int) n = some (slice middle k n) := by
  rw [readAt_ok (by simp only [List.length_append]; omega),
    slice_append_left (by simp only [List.length_append]; omega), slice_append_right]

end KafGo.Lib
