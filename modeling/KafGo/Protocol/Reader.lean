import KafGo.Lib.Varint

/-!
The byte reader of the wire protocol. A failed read leaves the reader where it stopped, which matters to
callers that ignore the error.
-/

namespace KafGo.Protocol
open Lib

/-- Errors that are returned, and run-time panics. -/
inductive Failure where
  | eof
  | uvarintOverflow
  | unknownCodec (codec : Nat)
  | snappy
  | panics
  deriving DecidableEq, Repr

/-- A read from the bytes that remain. -/
abbrev Read (α : Type) := ExceptT Failure (StateM Bytes) α

namespace Read

def remaining : Read Nat := do
  return (← get).length

/-- `require(n)` and the slice of `n` bytes. -/
def take (n : Nat) : Read Bytes := do
  let buf ← get
  if buf.length < n then throw .eof
  set (buf.drop n)
  return buf.take n

def int8 : Read Int := do return signed 8 (beNat (← take 1))
def int16 : Read Int := do return signed 16 (beNat (← take 2))
def int32 : Read Int := do return signed 32 (beNat (← take 4))
def int64 : Read Int := do return signed 64 (beNat (← take 8))
def uint32 : Read Nat := do return beNat (← take 4)

/-- `ReadRawBytes` copies without moving on. -/
def rawBytes (n : Nat) : Read Bytes := do
  let buf ← get
  if buf.length = 0 ∨ buf.length < n then throw .eof
  return buf.take n

def byte : Read UInt8 := do return (← take 1).headD 0

def uvarintLoop : Nat → UInt64 → UInt64 → Read UInt64 := digitLoop byte (throw .uvarintOverflow)

def uvarint : Read UInt64 := uvarintLoop 10 0 0

def varint : Read Int := do return (unzigzag (← uvarint)).toInt

/-- `v, _ := read()`. -/
def orZero (read : Read Int) : Read Int := tryCatch read fun _ => pure 0

variable {α β : Type}

def Gives (read : Read α) (buf : Bytes) (a : α) (rest : Bytes) : Prop := read.run.run buf = (.ok a, rest)

variable {a : α} {buf rest : Bytes} {read : Read α} {next : α → Read β}

theorem gives_pure {b : α} (ok : Gives (pure a) buf b rest) : b = a ∧ rest = buf := by
  cases ok
  exact ⟨rfl, rfl⟩

theorem gives_bind {b : β} (ok : Gives (read >>= next) buf b rest) :
    ∃ a mid, Gives read buf a mid ∧ Gives (next a) mid b rest := by
  unfold Gives at ok
  rw [ExceptT.run_bind, StateT.run_bind] at ok
  rcases first : read.run.run buf with ⟨_ | a, mid⟩
  · rw [first] at ok
    cases ok
  · rw [first] at ok
    exact ⟨a, mid, first, ok⟩

theorem run_ok (ran : read.run.run buf = (.ok a, rest)) : (read >>= next).run.run buf = (next a).run.run rest := by
  rw [ExceptT.run_bind, StateT.run_bind, ran]
  rfl

theorem run_error {e : Failure} (ran : read.run.run buf = (.error e, rest)) :
    (read >>= next).run.run buf = (.error e, rest) := by
  rw [ExceptT.run_bind, StateT.run_bind, ran]
  rfl

theorem take_run (n : Nat) (buf : Bytes) :
    (take n).run.run buf = if buf.length < n then (.error .eof, buf) else (.ok (buf.take n), buf.drop n) := by
  show (if buf.length < n then _ else _ : Read Bytes).run.run buf = _
  split
  · rfl
  · rfl

theorem gives_take {n : Nat} {part : Bytes} (ok : Gives (take n) buf part rest) :
    n ≤ buf.length ∧ part = slice buf 0 n ∧ rest = buf.drop n := by
  unfold Gives at ok
  rw [take_run] at ok
  split at ok
  · cases ok
  · cases ok
    exact ⟨by omega, rfl, rfl⟩

theorem gives_fixed {n : Nat} {f : Bytes → α} (ok : Gives (do return f (← take n)) buf a rest) :
    n ≤ buf.length ∧ a = f (slice buf 0 n) ∧ rest = buf.drop n := by
  obtain ⟨part, mid, taken, returned⟩ := gives_bind ok
  obtain ⟨room, rfl, rfl⟩ := gives_take taken
  obtain ⟨rfl, rfl⟩ := gives_pure returned
  exact ⟨room, rfl, rfl⟩

end Read

end KafGo.Protocol
