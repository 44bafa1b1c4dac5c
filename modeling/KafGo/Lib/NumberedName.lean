import KafGo.Lib.Bytes
import Mathlib.Algebra.Ring.Int.Defs
import Mathlib.Algebra.Ring.Nat
import Mathlib.Data.List.Basic
import Mathlib.Tactic.Common

/-!
# Numbered names

Keys made of a name, a separator and a decimal number, and reading a number back. A separator that no number
contains lets the key determine both parts.
-/

namespace KafGo.Lib

def numbered (separator : Char) (name : String) (n : Int) : String := name ++ String.singleton separator ++ toString n

def trimStart (s start : String) : String :=
  if start.toList.isPrefixOf s.toList then String.ofList (s.toList.drop start.toList.length) else s

/-- `strconv.ParseInt` in base ten: an optional sign and digits, within the range of the given width. -/
def parseInt (bits : Nat) (s : String) : Option Int :=
  let (negative, digits) := match s.toList with
    | '-' :: rest => (true, rest)
    | '+' :: rest => (false, rest)
    | cs => (false, cs)
  if digits.isEmpty || !digits.all Char.isDigit then none
  else
    let magnitude : Int := Nat.ofDigitChars 10 digits 0
    let value := if negative then -magnitude else magnitude
    if -2 ^ (bits - 1) ≤ value ∧ value < 2 ^ (bits - 1) then some value else none

variable {α : Type}

theorem split_at_last {c : α} {a b x y : List α} (free : c ∉ x) (free' : c ∉ y) (same : a ++ c :: x = b ++ c :: y) :
    a = b ∧ x = y := by
  induction a generalizing b with
  | nil =>
    cases b with
    | nil => exact ⟨rfl, (List.cons.inj same).2⟩
    | cons d b =>
      have tail : x = b ++ c :: y := (List.cons.inj same).2
      exact absurd (tail ▸ List.mem_append_right b List.mem_cons_self) free
  | cons d a ih =>
    cases b with
    | nil =>
      have tail : a ++ c :: x = y := (List.cons.inj same).2
      exact absurd (tail ▸ List.mem_append_right a List.mem_cons_self) free'
    | cons e b =>
      obtain ⟨rfl, rest⟩ := List.cons.inj same
      obtain ⟨rfl, tail⟩ := ih rest
      exact ⟨rfl, tail⟩

theorem toString_natCast (n : Nat) : (toString (n : Int)).toList = Nat.toDigits 10 n := Nat.toList_repr

theorem toDigits_injective {m n : Nat} (same : Nat.toDigits 10 m = Nat.toDigits 10 n) : m = n := by
  rw [← Nat.ofDigitChars_toDigits (b := 10) (n := m) (by decide) (by decide), same,
    Nat.ofDigitChars_toDigits (by decide) (by decide)]

theorem toDigits_isDigit (n : Nat) : ∀ c ∈ Nat.toDigits 10 n, c.isDigit = true :=
  fun _ => Nat.isDigit_of_mem_toDigits (by decide) (by decide)

variable {c : Char} {a b : String} {bits : Nat} {n m : Int}

theorem not_mem_toDigits (other : c.isDigit = false) (n : Nat) : c ∉ Nat.toDigits 10 n := by
  intro member
  rw [toDigits_isDigit n c member] at other
  cases other

theorem numbered_injective {separator : Char} (other : separator.isDigit = false) {m n : Nat}
    (same : numbered separator a m = numbered separator b n) : a = b ∧ m = n := by
  have lists := congrArg String.toList same
  simp only [numbered, String.toList_append, String.toList_singleton, toString_natCast, List.append_assoc,
    List.singleton_append] at lists
  obtain ⟨names, digits⟩ := split_at_last (not_mem_toDigits other m) (not_mem_toDigits other n) lists
  exact ⟨String.toList_inj.mp names, toDigits_injective digits⟩

theorem numbered_neg (name : String) {n : Nat} (positive : 0 < n) :
    numbered '-' name (-(n : Int)) = numbered '-' (name ++ "-") n := by
  obtain ⟨m, rfl⟩ := Nat.exists_eq_succ_of_ne_zero (Nat.ne_of_gt positive)
  have digits : toString (-((m + 1 : Nat) : Int)) = "-" ++ toString ((m + 1 : Nat) : Int) := rfl
  have separator : String.singleton '-' = "-" := rfl
  unfold numbered
  rw [digits, separator, ← String.append_assoc]

/-- The sign of one number is the separator of the other. -/
def Clash (a : String) (p : Int) (b : String) (q : Int) : Prop := b = a ++ "-" ∧ 0 < q ∧ p = -q

instance : ∀ a p b q, Decidable (Clash a p b q) := fun a p b q =>
  inferInstanceAs (Decidable (b = a ++ "-" ∧ 0 < q ∧ p = -q))

theorem numbered_clash {p q : Int} (clash : Clash a p b q) : numbered '-' a p = numbered '-' b q := by
  obtain ⟨rfl, positive, rfl⟩ := clash
  obtain ⟨n, rfl⟩ := Int.eq_ofNat_of_zero_le (Int.le_of_lt positive)
  exact numbered_neg a (Int.natCast_pos.mp positive)

/-- With a minus sign for the separator, a key has two readings at most. -/
theorem numbered_eq_iff {p q : Int} :
    numbered '-' a p = numbered '-' b q ↔ (a = b ∧ p = q) ∨ Clash a p b q ∨ Clash b q a p := by
  have sign : ∀ x : Int, (∃ n : Nat, x = n) ∨ ∃ n : Nat, 0 < n ∧ x = -n := by
    intro x
    rcases Int.le_total 0 x with up | down
    · exact .inl ⟨x.toNat, by omega⟩
    · rcases Int.lt_or_eq_of_le down with below | rfl
      · exact .inr ⟨(-x).toNat, by omega, by omega⟩
      · exact .inl ⟨0, rfl⟩
  constructor
  · intro same
    rcases sign p with ⟨m, rfl⟩ | ⟨m, up, rfl⟩
    · rcases sign q with ⟨n, rfl⟩ | ⟨n, up', rfl⟩
      · obtain ⟨rfl, rfl⟩ := numbered_injective (by decide) same
        exact .inl ⟨rfl, rfl⟩
      · rw [numbered_neg b up'] at same
        obtain ⟨rfl, rfl⟩ := numbered_injective (by decide) same
        exact .inr (.inr ⟨rfl, by omega, rfl⟩)
    · rw [numbered_neg a up] at same
      rcases sign q with ⟨n, rfl⟩ | ⟨n, up', rfl⟩
      · obtain ⟨rfl, rfl⟩ := numbered_injective (by decide) same
        exact .inr (.inl ⟨rfl, by omega, rfl⟩)
      · rw [numbered_neg b up'] at same
        obtain ⟨names, rfl⟩ := numbered_injective (by decide) same
        have lists := congrArg String.toList names
        rw [String.toList_append, String.toList_append] at lists
        exact .inl ⟨String.toList_inj.mp (List.append_cancel_right lists), rfl⟩
  · rintro (⟨rfl, rfl⟩ | clash | clash)
    · rfl
    · exact numbered_clash clash
    · exact (numbered_clash clash).symm

theorem trimStart_append (start s : String) : trimStart (start ++ s) start = s := by
  unfold trimStart
  rw [if_pos (by simp [String.toList_append]), String.toList_append, List.drop_left, String.ofList_toList]

theorem parseInt_digits {ds : List Char} (nonempty : ds ≠ []) (digits : ∀ c ∈ ds, c.isDigit = true)
    (small : Nat.ofDigitChars 10 ds 0 < 2 ^ (bits - 1)) :
    parseInt bits (String.ofList ds) = some (Nat.ofDigitChars 10 ds 0 : Int) := by
  have bound : -2 ^ (bits - 1) ≤ (Nat.ofDigitChars 10 ds 0 : Int) ∧
    (Nat.ofDigitChars 10 ds 0 : Int) < 2 ^ (bits - 1) := by
    have cast : ((2 ^ (bits - 1) : Nat) : Int) = 2 ^ (bits - 1) := by simp
    omega
  unfold parseInt
  rw [String.toList_ofList]
  split
  rename_i negative ds' found
  -- the first digit is no sign
  split at found
  · exact absurd (digits '-' List.mem_cons_self) (by decide)
  · exact absurd (digits '+' List.mem_cons_self) (by decide)
  · obtain ⟨rfl, rfl⟩ := Prod.mk.inj found
    have full : (ds.isEmpty || !ds.all Char.isDigit) = false := by
      simp [nonempty, List.all_eq_true.mpr digits]
    simp [full, bound]

theorem parseInt_minus {ds : List Char} (nonempty : ds ≠ []) (digits : ∀ c ∈ ds, c.isDigit = true)
    (small : Nat.ofDigitChars 10 ds 0 ≤ 2 ^ (bits - 1)) :
    parseInt bits (String.ofList ('-' :: ds)) = some (-(Nat.ofDigitChars 10 ds 0 : Int)) := by
  have bound : -2 ^ (bits - 1) ≤ -(Nat.ofDigitChars 10 ds 0 : Int) ∧
    -(Nat.ofDigitChars 10 ds 0 : Int) < 2 ^ (bits - 1) := by
    have cast : ((2 ^ (bits - 1) : Nat) : Int) = 2 ^ (bits - 1) := by simp
    have positive := Nat.two_pow_pos (bits - 1)
    omega
  have full : (ds.isEmpty || !ds.all Char.isDigit) = false := by
    simp [nonempty, List.all_eq_true.mpr digits]
  unfold parseInt
  rw [String.toList_ofList]
  simp [full, bound]

theorem parseInt_natCast {n : Nat} (small : n < 2 ^ (bits - 1)) :
    parseInt bits (toString (n : Int)) = some (n : Int) := by
  have value : Nat.ofDigitChars 10 (Nat.toDigits 10 n) 0 = n := Nat.ofDigitChars_toDigits (by decide) (by decide)
  have read := @parseInt_digits bits _ Nat.toDigits_ne_nil (toDigits_isDigit n) (by rw [value]; exact small)
  rwa [value, ← toString_natCast, String.ofList_toList] at read

/-- `%0*d`: zeros behind the sign fill up the width. -/
def zeroPadded (width : Nat) (n : Int) : String :=
  let digits := Nat.toDigits 10 n.natAbs
  if n < 0 then String.ofList ('-' :: (List.replicate (width - 1 - digits.length) '0' ++ digits))
  else String.ofList (List.replicate (width - digits.length) '0' ++ digits)

theorem padded_digits (k n : Nat) : List.replicate k '0' ++ Nat.toDigits 10 n ≠ [] ∧
    (∀ c ∈ List.replicate k '0' ++ Nat.toDigits 10 n, c.isDigit = true) ∧
    Nat.ofDigitChars 10 (List.replicate k '0' ++ Nat.toDigits 10 n) 0 = n := by
  refine ⟨by simp [Nat.toDigits_ne_nil], fun c member => ?_, ?_⟩
  · rcases List.mem_append.mp member with zero | digit
    · rw [List.eq_of_mem_replicate zero]
      decide
    · exact toDigits_isDigit n c digit
  · rw [Nat.ofDigitChars_append, Nat.ofDigitChars_replicate_zero, Nat.mul_zero]
    exact Nat.ofDigitChars_toDigits (by decide) (by decide)

theorem parseInt_zeroPadded (width : Nat) (low : -2 ^ (bits - 1) ≤ n) (high : n < 2 ^ (bits - 1)) :
    parseInt bits (zeroPadded width n) = some n := by
  have cast : ((2 ^ (bits - 1) : Nat) : Int) = 2 ^ (bits - 1) := by simp
  unfold zeroPadded
  dsimp only
  split
  · rename_i negative
    obtain ⟨nonempty, digits, value⟩ := padded_digits (width - 1 - (Nat.toDigits 10 n.natAbs).length) n.natAbs
    rw [parseInt_minus nonempty digits (by omega), value]
    congr 1
    omega
  · rename_i positive
    obtain ⟨nonempty, digits, value⟩ := padded_digits (width - (Nat.toDigits 10 n.natAbs).length) n.natAbs
    rw [parseInt_digits nonempty digits (by omega), value]
    congr 1
    omega

def hasSuffix (s ending : String) : Bool := ending.toList.isSuffixOf s.toList

def trimSuffix (s ending : String) : String :=
  if hasSuffix s ending then String.ofList (s.toList.take (s.toList.length - ending.toList.length)) else s

theorem hasSuffix_append (s ending : String) : hasSuffix (s ++ ending) ending = true := by
  unfold hasSuffix
  rw [List.isSuffixOf_iff_suffix, String.toList_append]
  exact List.suffix_append _ _

theorem trimSuffix_append (s ending : String) : trimSuffix (s ++ ending) ending = s := by
  unfold trimSuffix
  rw [if_pos (hasSuffix_append s ending), String.toList_append, List.length_append, Nat.add_sub_cancel,
    List.take_left, String.ofList_toList]

def decimal (n : Int) : Bytes := (toString n).toList.map fun c => UInt8.ofNat c.toNat

def numberedBytes (separator : UInt8) (name : Bytes) (n : Int) : Bytes := name ++ separator :: decimal n

theorem toString_negSucc (n : Nat) : (toString (Int.negSucc n)).toList = '-' :: Nat.toDigits 10 (n + 1) := by
  have signed : toString (Int.negSucc n) = "-" ++ toString ((n + 1 : Nat) : Int) := rfl
  rw [signed, String.toList_append, toString_natCast]
  rfl

theorem mem_toString (member : c ∈ (toString n).toList) : c = '-' ∨ c.isDigit = true := by
  cases n with
  | ofNat n => exact .inr (toDigits_isDigit n c (toString_natCast n ▸ member))
  | negSucc n =>
    rw [toString_negSucc] at member
    exact (List.mem_cons.mp member).imp_right (toDigits_isDigit (n + 1) c)

theorem toString_injective (same : (toString m).toList = (toString n).toList) : m = n := by
  cases m with
  | ofNat m =>
    cases n with
    | ofNat n =>
      rw [Int.ofNat_eq_natCast, Int.ofNat_eq_natCast, toString_natCast, toString_natCast] at same
      rw [toDigits_injective same]
    | negSucc n =>
      rw [Int.ofNat_eq_natCast, toString_natCast, toString_negSucc] at same
      exact absurd (same ▸ List.mem_cons_self) (not_mem_toDigits rfl _)
  | negSucc m =>
    cases n with
    | ofNat n =>
      rw [Int.ofNat_eq_natCast, toString_natCast, toString_negSucc] at same
      exact absurd (same ▸ List.mem_cons_self) (not_mem_toDigits rfl _)
    | negSucc n =>
      rw [toString_negSucc, toString_negSucc] at same
      have digits := toDigits_injective (List.cons.inj same).2
      rw [Nat.succ_inj.mp digits]

theorem toString_ascii (member : c ∈ (toString n).toList) :
    c.toNat = 45 ∨ 48 ≤ c.toNat ∧ c.toNat ≤ 57 := by
  rcases mem_toString member with rfl | digit
  · exact .inl rfl
  · rw [Char.isDigit, Bool.and_eq_true, decide_eq_true_eq, decide_eq_true_eq] at digit
    exact .inr ⟨UInt32.le_iff_toNat_le.mp digit.1, UInt32.le_iff_toNat_le.mp digit.2⟩

theorem decimal_bytes {b : UInt8} (member : b ∈ decimal n) : b.toNat = 45 ∨ 48 ≤ b.toNat ∧ b.toNat ≤ 57 := by
  obtain ⟨c, inside, rfl⟩ := List.mem_map.mp member
  have ascii := toString_ascii inside
  rw [UInt8.toNat_ofNat', Nat.mod_eq_of_lt (by omega)]
  exact ascii

theorem decimal_injective (same : decimal m = decimal n) : m = n := by
  have back : ∀ k : Int, (decimal k).map (fun b => Char.ofNat b.toNat) = (toString k).toList := by
    intro k
    unfold decimal
    rw [List.map_map]
    refine (List.map_congr_left fun c member => ?_).trans (List.map_id _)
    have ascii := toString_ascii member
    show Char.ofNat (UInt8.ofNat c.toNat).toNat = c
    rw [UInt8.toNat_ofNat', Nat.mod_eq_of_lt (by omega), Char.ofNat_toNat]
  apply toString_injective
  rw [← back m, ← back n, same]

/-- Whatever the name is made of, the last separator in a key is the one in front of the number. -/
theorem numberedBytes_injective {separator : UInt8} (other : 57 < separator.toNat) {a b : Bytes}
    (same : numberedBytes separator a m = numberedBytes separator b n) : a = b ∧ m = n := by
  have free : ∀ k, separator ∉ decimal k := by
    intro k member
    have byte := decimal_bytes member
    omega
  obtain ⟨names, numbers⟩ := split_at_last (free m) (free n) same
  exact ⟨names, decimal_injective numbers⟩

end KafGo.Lib
