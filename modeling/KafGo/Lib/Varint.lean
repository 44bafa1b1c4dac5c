import KafGo.Lib.Bytes
import Mathlib.Tactic.Common

/-!
# Variable-length integers

Base-128 digits of a 64-bit word, least significant first, and the zigzag code that maps small signed
integers to small words.
-/

namespace KafGo.Lib

/-- `uint64((v << 1) ^ (v >> 63))`. -/
def zigzag (v : Int64) : UInt64 := ((v <<< 1) ^^^ (v >>> 63)).toUInt64

/-- `int64((uv >> 1) ^ -(uv & 1))`. -/
def unzigzag (uv : UInt64) : Int64 := ((uv >>> 1) ^^^ (0 - (uv &&& 1))).toInt64

/-- `for uv >= 0x80 { byte(uv) | 0x80; uv >>= 7 }` and the last digit. -/
def uvarintDigits : Nat → UInt64 → Bytes
  | 0, _ => []
  | turns + 1, uv => if uv < 0x80 then [uv.toUInt8] else (uv.toUInt8 ||| 0x80) :: uvarintDigits turns (uv >>> 7)

def uvarintBytes (uv : UInt64) : Bytes := uvarintDigits 10 uv

/-- `result |= uint64(b & 0x7f) << shift`. -/
def pushDigit (result shift : UInt64) (b : UInt8) : UInt64 := result ||| ((b &&& 0x7f).toUInt64 <<< shift)

theorem sshiftRight_sign (w : BitVec 64) : w.sshiftRight 63 = if w.msb then BitVec.allOnes 64 else 0#64 := by
  have top : w.msb = w.getLsbD 63 := BitVec.msb_eq_getLsbD_last w
  ext i inside
  rw [BitVec.getElem_sshiftRight]
  by_cases first : 63 + i < 64
  · obtain rfl : i = 0 := by omega
    rw [dif_pos first, ← BitVec.getLsbD_eq_getElem, ← top]
    cases w.msb <;> simp
  · rw [dif_neg first]
    cases w.msb with
    | false => simp
    | true => rw [if_pos rfl, BitVec.getElem_allOnes]

theorem zigzag_bits (w : BitVec 64) :
    (((w <<< 1) ^^^ (w.sshiftRight 63)) >>> 1) ^^^ (0#64 - (((w <<< 1) ^^^ (w.sshiftRight 63)) &&& 1#64)) = w := by
  have top : w.msb = w.getLsbD 63 := BitVec.msb_eq_getLsbD_last w
  rw [sshiftRight_sign]
  cases sign : w.msb with
  | false =>
    have even : ((w <<< 1) ^^^ 0#64) &&& 1#64 = 0#64 := by
      ext i inside
      cases i <;> simp
    rw [if_neg (by decide), even]
    ext i inside
    by_cases last : i = 63
    · subst last
      rw [sign, BitVec.getLsbD_eq_getElem (by decide)] at top
      simp [← top]
    · have next : 1 + i < 64 := by omega
      simp only [BitVec.getElem_xor, BitVec.getElem_ushiftRight, BitVec.getLsbD_eq_getElem next]
      simp
  | true =>
    have odd : ((w <<< 1) ^^^ BitVec.allOnes 64) &&& 1#64 = 1#64 := by
      ext i inside
      cases i <;> simp
    rw [if_pos rfl, odd, BitVec.zero_sub, BitVec.neg_one_eq_allOnes]
    ext i inside
    by_cases last : i = 63
    · subst last
      rw [sign, BitVec.getLsbD_eq_getElem (by decide)] at top
      simp [← top]
    · have next : 1 + i < 64 := by omega
      simp only [BitVec.getElem_xor, BitVec.getElem_ushiftRight, BitVec.getLsbD_eq_getElem next,
        BitVec.getElem_allOnes]
      simp

theorem unzigzag_zigzag (v : Int64) : unzigzag (zigzag v) = v := by
  apply Int64.toBitVec_inj.mp
  have bits := zigzag_bits v.toBitVec
  rw [BitVec.zero_sub] at bits
  simpa [unzigzag, zigzag] using bits

theorem zigzag_ofNat {n : Nat} (small : n < 2 ^ 62) : (zigzag (Int64.ofNat n)).toNat = 2 * n := by
  have bits : (zigzag (Int64.ofNat n)).toBitVec =
      (BitVec.ofNat 64 n <<< 1) ^^^ (BitVec.ofNat 64 n).sshiftRight 63 := by
    simp [zigzag]
  have sign : (BitVec.ofNat 64 n).msb = false := by
    rw [BitVec.msb_eq_decide]
    simp
    omega
  rw [sshiftRight_sign, sign, if_neg (by decide)] at bits
  rw [← UInt64.toNat_toBitVec, bits]
  simp
  omega

theorem low_digit (uv : UInt64) (small : uv < 0x80) :
    uv.toUInt8 < 0x80 ∧ (uv.toUInt8 &&& 0x7f).toNat = uv.toNat := by
  have bound : uv.toNat < 128 := small
  have mask : ∀ n < 128, (UInt8.ofNat n) < 0x80 ∧ (UInt8.ofNat n &&& 0x7f).toNat = n := by decide
  have same : uv.toUInt8 = UInt8.ofNat uv.toNat := by
    apply UInt8.toNat_inj.mp
    simp
  rw [same]
  exact mask uv.toNat bound

theorem high_digit (uv : UInt64) :
    ¬ (uv.toUInt8 ||| 0x80) < 0x80 ∧ ((uv.toUInt8 ||| 0x80) &&& 0x7f).toNat = uv.toNat % 128 := by
  have mask : ∀ n < 256, ¬ (UInt8.ofNat n ||| 0x80) < 0x80 ∧ ((UInt8.ofNat n ||| 0x80) &&& 0x7f).toNat = n % 128 := by
    decide +kernel
  have same : uv.toUInt8 = UInt8.ofNat (uv.toNat % 256) := by
    apply UInt8.toNat_inj.mp
    simp
  rw [same]
  have digit := mask (uv.toNat % 256) (Nat.mod_lt _ (by decide))
  refine ⟨digit.1, digit.2.trans ?_⟩
  omega

theorem shifted_toNat (uv : UInt64) : (uv >>> 7).toNat = uv.toNat / 128 := by simp [Nat.shiftRight_eq_div_pow]

theorem length_uvarintDigits (turns : Nat) : ∀ {uv : UInt64} {k : Nat}, 1 ≤ k → uv.toNat < 2 ^ (7 * k) →
    (uvarintDigits turns uv).length ≤ k := by
  induction turns with
  | zero => intro uv k _ _; exact Nat.zero_le k
  | succ turns ih =>
    intro uv k one small
    rw [uvarintDigits]
    split
    · simpa using one
    · rename_i large
      have two : 2 ≤ k := by
        by_contra single
        obtain rfl : k = 1 := by omega
        exact large small
      obtain ⟨k, rfl⟩ : ∃ n, k = n + 1 := ⟨k - 1, by omega⟩
      have weight : 2 ^ (7 * (k + 1)) = 128 * 2 ^ (7 * k) := by rw [Nat.mul_add, Nat.pow_add]; omega
      have rest := @ih (uv >>> 7) k (by omega) (by rw [shifted_toNat]; omega)
      simpa using rest

theorem pushDigit_toNat {result shift : UInt64} {b : UInt8} (low : result.toNat < 2 ^ shift.toNat)
    (room : shift.toNat < 64) (fits : (b &&& 0x7f).toNat * 2 ^ shift.toNat < 2 ^ 64) :
    (pushDigit result shift b).toNat = result.toNat + (b &&& 0x7f).toNat * 2 ^ shift.toNat := by
  unfold pushDigit
  rw [UInt64.toNat_or, UInt64.toNat_shiftLeft, UInt8.toNat_toUInt64, Nat.mod_eq_of_lt room, Nat.shiftLeft_eq,
    Nat.mod_eq_of_lt fits, Nat.or_comm, Nat.mul_comm, ← Nat.two_pow_add_eq_or_of_lt low]
  omega

/-! ### Reading digits -/

/-- The word at the front of the bytes and what is behind it, read digit by digit. The tenth digit is the last one
that can fit. -/
def takeDigits : Nat → UInt64 → UInt64 → Bytes → Option (UInt64 × Bytes)
  | 0, _, _, _ => none
  | _ + 1, _, _, [] => none
  | turns + 1, result, shift, b :: rest =>
    if shift = 63 ∧ b > 1 then none
    else if b < 0x80 then some (pushDigit result shift b, rest)
    else takeDigits turns (pushDigit result shift b) (shift + 7) rest

def takeUvarint (bs : Bytes) : Option (UInt64 × Bytes) := takeDigits 10 0 0 bs

section Loop

variable {m n : Type → Type} [Monad m] [Monad n]

/-- The same loop in any monad with a next byte. -/
def digitLoop (byte : m UInt8) (overflow : m UInt64) : Nat → UInt64 → UInt64 → m UInt64
  | 0, _, _ => overflow
  | turns + 1, result, shift => do
    let b ← byte
    if shift = 63 ∧ b > 1 then overflow
    else if b < 0x80 then return pushDigit result shift b
    else digitLoop byte overflow turns (pushDigit result shift b) (shift + 7)

theorem digitLoop_related {R : m UInt64 → n UInt64 → Prop} {byte : m UInt8} {byte' : n UInt8} {overflow : m UInt64}
    {overflow' : n UInt64} (ends : ∀ w, R (pure w) (pure w)) (overflows : R overflow overflow')
    (reads : ∀ {f g}, (∀ b, R (f b) (g b)) → R (byte >>= f) (byte' >>= g)) (turns : Nat) (result shift : UInt64) :
    R (digitLoop byte overflow turns result shift) (digitLoop byte' overflow' turns result shift) := by
  induction turns generalizing result shift with
  | zero => exact overflows
  | succ turns ih =>
    refine reads fun b => ?_
    split
    · exact overflows
    · split
      · exact ends _
      · exact ih _ _

def nextByte : StateT Bytes Option UInt8 := fun left => left.head?.map fun b => (b, left.tail)

theorem takeDigits_loop (turns : Nat) (result shift : UInt64) (bs : Bytes) :
    (digitLoop nextByte failure turns result shift).run bs = takeDigits turns result shift bs := by
  induction turns generalizing result shift bs with
  | zero => rfl
  | succ turns ih =>
    cases bs with
    | nil => rfl
    | cons b bs =>
      rw [takeDigits, ← ih]
      show (if shift = 63 ∧ b > 1 then _ else if b < 0x80 then _ else _ : StateT Bytes Option UInt64).run bs = _
      split
      · rfl
      · split <;> rfl

end Loop

section Digits

variable {result shift n : UInt64} (low : result.toNat < 2 ^ shift.toNat) (room : shift.toNat < 64)
  (fits : n.toNat * 2 ^ shift.toNat < 2 ^ 64)

include low room fits

theorem pushDigit_last (last : n < 0x80) :
    (pushDigit result shift n.toUInt8).toNat = result.toNat + n.toNat * 2 ^ shift.toNat := by
  have digit := (low_digit n last).2
  rw [pushDigit_toNat low room (by rw [digit]; exact fits), digit]

theorem pushDigit_more (more : ¬ n < 0x80) :
    (shift + 7).toNat = shift.toNat + 7 ∧
      (pushDigit result shift (n.toUInt8 ||| 0x80)).toNat < 2 ^ (shift + 7).toNat ∧
      (n >>> 7).toNat * 2 ^ (shift + 7).toNat < 2 ^ 64 ∧
      (pushDigit result shift (n.toUInt8 ||| 0x80)).toNat + (n >>> 7).toNat * 2 ^ (shift + 7).toNat =
        result.toNat + n.toNat * 2 ^ shift.toNat := by
  have positive := Nat.two_pow_pos shift.toNat
  have large : 128 ≤ n.toNat := Nat.not_lt.mp more
  have narrow : shift.toNat + 7 < 2 ^ 64 := by omega
  have nextShift : (shift + 7).toNat = shift.toNat + 7 := by
    rw [UInt64.toNat_add]
    show (shift.toNat + 7) % 2 ^ 64 = _
    exact Nat.mod_eq_of_lt narrow
  have digit := (high_digit n).2
  have below : n.toNat % 128 * 2 ^ shift.toNat < 2 ^ 64 :=
    Nat.lt_of_le_of_lt (Nat.mul_le_mul_right _ (Nat.mod_le _ _)) fits
  have pushed := pushDigit_toNat low room (by rw [digit]; exact below)
  rw [digit] at pushed
  have weight : 2 ^ (shift.toNat + 7) = 128 * 2 ^ shift.toNat := by rw [Nat.pow_add]; omega
  have small : n.toNat % 128 * 2 ^ shift.toNat ≤ 127 * 2 ^ shift.toNat := Nat.mul_le_mul_right _ (by omega)
  have value : (pushDigit result shift (n.toUInt8 ||| 0x80)).toNat + (n >>> 7).toNat * 2 ^ (shift + 7).toNat =
      result.toNat + n.toNat * 2 ^ shift.toNat := by
    calc (pushDigit result shift (n.toUInt8 ||| 0x80)).toNat + (n >>> 7).toNat * 2 ^ (shift + 7).toNat
        = result.toNat + (128 * (n.toNat / 128) + n.toNat % 128) * 2 ^ shift.toNat := by
          rw [pushed, nextShift, weight, shifted_toNat]
          ring
      _ = result.toNat + n.toNat * 2 ^ shift.toNat := by rw [Nat.div_add_mod]
  exact ⟨nextShift, by rw [nextShift, weight, pushed]; omega, by omega, value⟩

end Digits

theorem takeDigits_digits (turns : Nat) : ∀ (rest : Bytes) (result shift n : UInt64), turns ≤ 10 → 1 ≤ turns →
    shift.toNat = 7 * (10 - turns) → result.toNat < 2 ^ shift.toNat → n.toNat * 2 ^ shift.toNat < 2 ^ 64 →
    ∃ w : UInt64, w.toNat = result.toNat + n.toNat * 2 ^ shift.toNat ∧
      takeDigits turns result shift (uvarintDigits turns n ++ rest) = some (w, rest) := by
  induction turns with
  | zero => intro _ _ _ _ _ one; omega
  | succ turns ih =>
    intro rest result shift n few _ shiftEq low fits
    have room : shift.toNat < 64 := by omega
    have top : shift = 63 → n.toNat ≤ 1 := by
      rintro rfl
      have weight : n.toNat * 2 ^ 63 < 2 ^ 64 := fits
      omega
    by_cases last : n < 0x80
    · have value := pushDigit_last low room fits last
      have fitting : ¬ (shift = 63 ∧ n.toUInt8 > 1) := by
        rintro ⟨full, above⟩
        have single := top full
        have above : 1 < n.toUInt8.toNat := above
        rw [UInt64.toNat_toUInt8] at above
        omega
      refine ⟨_, value, ?_⟩
      rw [uvarintDigits, if_pos last, List.singleton_append, takeDigits, if_neg fitting,
        if_pos (low_digit n last).1]
    · obtain ⟨nextShift, below, rest_fits, value⟩ := pushDigit_more low room fits last
      have large : 128 ≤ n.toNat := Nat.not_lt.mp last
      have fitting : ¬ (shift = 63 ∧ (n.toUInt8 ||| 0x80) > 1) := fun ⟨full, _⟩ => by
        have single := top full
        omega
      have narrow : shift.toNat < 63 := by
        by_contra wide
        have full : shift = 63 := UInt64.toNat_inj.mp (show shift.toNat = 63 by omega)
        have single := top full
        omega
      obtain ⟨w, total, taken⟩ := ih rest (pushDigit result shift (n.toUInt8 ||| 0x80)) (shift + 7) (n >>> 7)
        (by omega) (by omega) (by omega) below rest_fits
      refine ⟨w, total.trans value, ?_⟩
      rw [uvarintDigits, if_neg last, List.cons_append, takeDigits, if_neg fitting, if_neg (high_digit n).1]
      exact taken

theorem takeUvarint_bytes (v : UInt64) (rest : Bytes) : takeUvarint (uvarintBytes v ++ rest) = some (v, rest) := by
  have bound := v.toNat_lt
  obtain ⟨w, value, taken⟩ := takeDigits_digits 10 rest 0 0 v (by decide) (by decide) rfl (by decide)
    (by simpa using bound)
  obtain rfl : w = v := by
    apply UInt64.toNat_inj.mp
    simpa using value
  exact taken

/-- Base-128 digits as a number of any size, the first one with the weight one. -/
def base128 : Bytes → Nat
  | [] => 0
  | b :: rest => b.toNat % 128 + 128 * base128 rest

def Delimited (digits : Bytes) : Prop := ∃ more last, digits = more ++ [last] ∧ (∀ b ∈ more, 0x80 ≤ b) ∧ last < 0x80

theorem digit_toNat (b : UInt8) : (b &&& 0x7f).toNat = b.toNat % 128 := by
  rw [UInt8.toNat_and]
  exact Nat.and_two_pow_sub_one_eq_mod b.toNat 7

/-- What is read is the number of the digits that were taken. Only the tenth digit could be too large. -/
theorem takeDigits_value {turns : Nat} {result shift v : UInt64} {bs rest : Bytes} (few : turns ≤ 10)
    (position : shift.toNat = 7 * (10 - turns)) (low : result.toNat < 2 ^ shift.toNat)
    (taken : takeDigits turns result shift bs = some (v, rest)) :
    ∃ digits, bs = digits ++ rest ∧ digits.length ≤ turns ∧ Delimited digits ∧
      v.toNat = result.toNat + base128 digits * 2 ^ shift.toNat := by
  induction turns generalizing result shift bs with
  | zero => cases taken
  | succ turns ih =>
    cases bs with
    | nil => cases taken
    | cons b bs =>
      rw [takeDigits] at taken
      split at taken
      · cases taken
      · rename_i fitting
        have room : shift.toNat < 64 := by omega
        have top : turns = 0 → b.toNat ≤ 1 := by
          intro last
          by_contra above
          exact fitting ⟨UInt64.toNat_inj.mp (show shift.toNat = 63 by omega),
            UInt8.lt_iff_toNat_lt.mpr (by simpa using above)⟩
        have fits : (b &&& 0x7f).toNat * 2 ^ shift.toNat < 2 ^ 64 := by
          rw [digit_toNat]
          by_cases last : turns = 0
          · have single : b.toNat % 128 ≤ 1 := Nat.le_trans (Nat.mod_le _ _) (top last)
            rw [show shift.toNat = 63 by omega]
            omega
          · have weight : 2 ^ shift.toNat ≤ 2 ^ 56 := Nat.pow_le_pow_right (by decide) (by omega)
            have digit : b.toNat % 128 ≤ 127 := by omega
            exact Nat.lt_of_le_of_lt (Nat.mul_le_mul digit weight) (by decide)
        have pushed := pushDigit_toNat low room fits
        rw [digit_toNat] at pushed
        split at taken
        · rename_i small
          cases taken
          refine ⟨[b], rfl, by simp, ⟨[], b, rfl, by simp, small⟩, ?_⟩
          rw [pushed, base128, base128]
          rfl
        · rename_i large
          have more : turns ≠ 0 := by
            intro last
            have single := top last
            exact large (UInt8.lt_iff_toNat_lt.mpr (show b.toNat < 128 by omega))
          have nextShift : (shift + 7).toNat = shift.toNat + 7 := by
            rw [UInt64.toNat_add]
            exact Nat.mod_eq_of_lt (show shift.toNat + 7 < 2 ^ 64 by omega)
          have weight : 2 ^ (shift.toNat + 7) = 128 * 2 ^ shift.toNat := by rw [Nat.pow_add]; omega
          have small : b.toNat % 128 * 2 ^ shift.toNat ≤ 127 * 2 ^ shift.toNat := Nat.mul_le_mul_right _ (by omega)
          obtain ⟨digits, rfl, count, ⟨init, last, rfl, others, ends⟩, value⟩ :=
            ih (by omega) (by omega) (by rw [nextShift, weight, pushed]; omega) taken
          refine ⟨b :: (init ++ [last]), rfl, by simpa using count, ⟨b :: init, last, rfl, ?_, ends⟩, ?_⟩
          · intro d member
            rcases List.mem_cons.mp member with rfl | member
            · exact UInt8.not_lt.mp large
            · exact others d member
          · rw [value, pushed, nextShift, weight, base128]
            ring

theorem length_uvarintDigits_eq (turns : Nat) : ∀ {uv : UInt64}, 1 ≤ turns → uv.toNat < 2 ^ (7 * turns) →
    (uvarintDigits turns uv).length = uv.toNat.log2 / 7 + 1 := by
  induction turns with
  | zero => intro _ one; omega
  | succ turns ih =>
    intro uv _ small
    rw [uvarintDigits]
    split
    · rename_i last
      have below : uv.toNat < 2 ^ 7 := last
      have bits : uv.toNat.log2 < 7 := by
        by_cases zero : uv.toNat = 0
        · rw [zero]
          decide
        · exact (Nat.log2_lt zero).mpr below
      rw [List.length_singleton]
      omega
    · rename_i large
      have large : 128 ≤ uv.toNat := Nat.not_lt.mp large
      have weight : 2 ^ (7 * (turns + 1)) = 128 * 2 ^ (7 * turns) := by rw [Nat.mul_add, Nat.pow_add]; omega
      have more : 1 ≤ turns := by
        by_contra none
        obtain rfl : turns = 0 := by omega
        omega
      have bits : uv.toNat.log2 = (uv.toNat / 128).log2 + 7 := by
        rw [Nat.log2_eq_iff (by omega)]
        obtain ⟨lower, upper⟩ := (Nat.log2_eq_iff (show uv.toNat / 128 ≠ 0 by omega)).mp rfl
        have scale : ∀ k, 2 ^ (k + 7) = 128 * 2 ^ k := fun k => by rw [Nat.pow_add, Nat.mul_comm]
        rw [scale, Nat.add_right_comm, scale]
        omega
      have rest := @ih (uv >>> 7) more (by rw [shifted_toNat]; omega)
      rw [List.length_cons, rest, shifted_toNat]
      omega

end KafGo.Lib
