import KafGo.Lib.Bytes

/-!
# Readers of a byte stream

A reader whose state is the bytes that are still to come. A read that must be full tells an end before the first byte
from an end within; a plain read takes what there is and fails at the end only, where it fails even for no bytes.
-/

namespace KafGo.Lib

inductive EndOfInput where
  | eof
  | unexpectedEOF
  deriving DecidableEq

abbrev ByteReader (ε : Type) := StateT Bytes (Except ε)

namespace ByteReader

variable {ε α β : Type} [Coe EndOfInput ε]

def readFull (n : Nat) : ByteReader ε Bytes := fun rest =>
  if n ≤ rest.length then .ok (rest.take n, rest.drop n)
  else .error (if rest = [] then EndOfInput.eof else EndOfInput.unexpectedEOF)

def readUint (w : Nat) : ByteReader ε Nat := return beNat (← readFull w)

/-- `Read` into a fresh slice of `n` bytes. What the stream cannot fill stays zero. -/
def read (n : Nat) : ByteReader ε Bytes := fun rest =>
  if rest = [] then .error EndOfInput.eof
  else .ok (rest.take n ++ List.replicate (n - rest.length) 0, rest.drop n)

omit [Coe EndOfInput ε] in
/-- A reader takes `bs` off the front of the stream as the value `a`, with `rest` behind it. -/
def Takes (d : ByteReader ε α) (bs rest : Bytes) (a : α) : Prop := d.run (bs ++ rest) = .ok (a, rest)

omit [Coe EndOfInput ε] in
theorem Takes.run_bind {d : ByteReader ε α} {bs rest : Bytes} {a : α} (first : Takes d bs rest a)
    (k : α → ByteReader ε β) : (d >>= k).run (bs ++ rest) = (k a).run rest := by
  rw [StateT.run_bind, first]
  rfl

theorem takes_readFull (bs rest : Bytes) : Takes (readFull bs.length : ByteReader ε Bytes) bs rest bs := by
  have enough : bs.length ≤ (bs ++ rest).length := by simp
  show readFull bs.length (bs ++ rest) = _
  rw [readFull, if_pos enough, List.take_left, List.drop_left]

theorem takes_readUint {w n : Nat} (small : n < 256 ^ w) (rest : Bytes) :
    Takes (readUint w : ByteReader ε Nat) (beBytes w n) rest n := by
  have full := takes_readFull (ε := ε) (beBytes w n) rest
  have value : beNat (beBytes w n) = n := (beNat_beBytes w n).trans (Nat.mod_eq_of_lt small)
  rw [length_beBytes] at full
  unfold Takes readUint at *
  rw [StateT.run_bind, full]
  exact congrArg (fun m => Except.ok (m, rest)) value

theorem takes_read {bs rest : Bytes} (more : bs ++ rest ≠ []) :
    Takes (read bs.length : ByteReader ε Bytes) bs rest bs := by
  show read bs.length (bs ++ rest) = _
  have filled : bs.length - (bs ++ rest).length = 0 := by
    rw [List.length_append]
    omega
  rw [read, if_neg more, filled, List.take_left, List.drop_left, List.replicate_zero, List.append_nil]

end ByteReader

end KafGo.Lib
