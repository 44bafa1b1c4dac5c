import KafGo.Wire.RoundTrip

/-!
# Variable-length integers on the wire

Every length on the wire is an unsigned varint. The reader takes what the writer writes, and nothing that it takes is
cut off to 64 bits.
-/

namespace KafGo.Wire
open Lib Scanner

def writeVarInt (v : Int64) : Bytes := writeUVarInt (zigzag v)

theorem reads_varint (v : Int64) : Reads readVarInt (writeVarInt v) v := by
  have read : Reads readVarInt (writeVarInt v) (unzigzag (zigzag v)) := (reads_uvarint (zigzag v)).last
  rwa [unzigzag_zigzag] at read

theorem length_writeUVarInt (v : UInt64) : (writeUVarInt v).length = uvarIntSize v := by
  have bound := v.toNat_lt
  have digits := @length_uvarintDigits_eq 10 v (by decide) (by omega)
  unfold writeUVarInt uvarintBytes uvarIntSize
  rw [digits]
  split
  · rename_i zero
    subst zero
    rfl
  · omega

theorem takeUvarint_value {bs rest : Bytes} {v : UInt64} (taken : takeUvarint bs = some (v, rest)) :
    ∃ digits, bs = digits ++ rest ∧ digits.length ≤ 10 ∧ Delimited digits ∧ v.toNat = base128 digits := by
  obtain ⟨digits, split, count, delimited, value⟩ := takeDigits_value (Nat.le_refl 10) rfl (by decide) taken
  exact ⟨digits, split, count, delimited, by simpa using value⟩

/-- From any position of a reader: what the writer wrote is read back with its own length, and whatever else is
accepted has the value of its digits. -/
theorem uvarint_exact {c : Cursor} (forward : c.Forward) :
    (∀ v rest, c.remaining = writeUVarInt v ++ rest →
      ∃ c', readUVarInt c = (.ok v, c') ∧ c'.remaining = rest ∧ c'.pos = c.pos + uvarIntSize v) ∧
    (∀ x rest, c.remaining = writeVarInt x ++ rest → ∃ c', readVarInt c = (.ok x, c') ∧ c'.remaining = rest) ∧
    ((∃ e c', readUVarInt c = (.error (.error e), c')) ∨
      ∃ v c' digits, readUVarInt c = (.ok v, c') ∧ c.remaining = digits ++ c'.remaining ∧
        c'.pos = c.pos + digits.length ∧ digits.length ≤ 10 ∧ Delimited digits ∧ v.toNat = base128 digits) := by
  refine ⟨fun v rest written => ?_, fun x rest written => ?_, ?_⟩
  · obtain ⟨c', read, onward⟩ := reads_uvarint v c rest forward written
    exact ⟨c', read, onward.remaining, by rw [onward.pos forward written, length_writeUVarInt]⟩
  · obtain ⟨c', read, onward⟩ := reads_varint x c rest forward written
    exact ⟨c', read, onward.remaining⟩
  · cases taken : takeUvarint c.remaining with
    | none =>
      obtain ⟨e, c', failed, _⟩ := readUVarInt_parses.rejects c forward taken
      exact .inl ⟨e, c', failed⟩
    | some result =>
      obtain ⟨v, rest⟩ := result
      obtain ⟨c', read, onward⟩ := readUVarInt_parses.accepts c v rest forward taken
      obtain ⟨digits, split, count, delimited, value⟩ := takeUvarint_value taken
      exact .inr ⟨v, c', digits, read, by rw [onward.remaining,
        split], onward.pos forward split, count, delimited, value⟩

def largestWord : Octets := ⟨[255, 255, 255, 255, 255, 255, 255, 255, 255, 1, 7], by decide⟩

theorem uvarint_exact_largest : (Cursor.start largestWord).remaining = writeUVarInt 0xffffffffffffffff ++ [7] ∧
    ∃ c', readUVarInt (.start largestWord) = (.ok 0xffffffffffffffff, c') ∧ c'.remaining = [7] ∧ c'.pos = 10 := by
  have written : (Cursor.start largestWord).remaining = writeUVarInt 0xffffffffffffffff ++ [7] := by decide +kernel
  obtain ⟨c', read, left, position⟩ := (uvarint_exact (Cursor.start_forward largestWord)).1 _ _ written
  refine ⟨written, c', read, left, position.trans ?_⟩
  decide +kernel

/-- One more in the tenth digit is refused, and not taken for a smaller word. -/
example : (readUVarInt (.start ⟨[128, 128, 128, 128, 128, 128, 128, 128, 128, 2], by decide⟩)).1 =
    .error (.error "uvarint: overflow") := by decide +kernel

end KafGo.Wire
