import KafGo.Lib.Cursor
import KafGo.Protocol.Reader

/-!
# The wire types

`Reader` and `Writer` with the types that the requests and responses are made of. Lengths are converted between
`uint64` and `int`, the bound check of the reader adds two `int`s, and null strings and arrays have a length of their
own, so the reader is modelled with its position and with the panics of the run-time system. An error is its text.
-/

namespace KafGo.Wire
open Lib Scanner

/-- The size of a value of a type in memory. -/
class Sized (α : Type) where
  size : Nat
  range : 0 < size ∧ size ≤ 2 ^ 20

@[reducible] def Sized.ofBytes {α : Type} (n : Nat) : Sized α where
  size := max 1 (min n (2 ^ 20))
  range := by omega

instance : Sized UInt8 := .ofBytes 1
instance : Sized Int32 := .ofBytes 4
instance : Sized Octets := .ofBytes 16

/-- A slice that is in memory. -/
structure Slice (α : Type) [Sized α] where
  elems : List α
  fits : elems.length * Sized.size α ≤ maxAlloc

def Slice.nil {α : Type} [Sized α] : Slice α := ⟨[], by simp⟩

theorem Slice.one_fits {α : Type} [Sized α] (a : α) : [a].length * Sized.size α ≤ maxAlloc := by
  have := (Sized.range (α := α)).2
  simp only [List.length_singleton, maxAlloc]
  omega

def Slice.one {α : Type} [Sized α] (a : α) : Slice α := ⟨[a], one_fits a⟩

def Slice.map {α β : Type} [Sized α] [Sized β] (f : α → β) (smaller : Sized.size β ≤ Sized.size α) (xs : Slice α) :
    Slice β :=
  ⟨xs.elems.map f, by rw [List.length_map]; exact Nat.le_trans (Nat.mul_le_mul_left _ smaller) xs.fits⟩

abbrev CompactString := Octets
abbrev NullableString := Option Octets
abbrev CompactNullableString := Option Octets
abbrev CompactBytes := Slice UInt8
abbrev CompactRecords := Option (Slice UInt8)

structure UUID where
  bytes : Bytes
  length : bytes.length = 16
  deriving DecidableEq

/-- `copy(v[:], bs)` into a new array. -/
def UUID.copy (bs : Bytes) : UUID := ⟨(bs ++ List.replicate 16 0).take 16, by simp⟩

/-! ### Reader -/

abbrev Decoder (α : Type) := Scanner String α

/-- `fmt.Errorf("path: %w", err)`. -/
def within (path : String) {α : Type} (d : Decoder α) : Decoder α := mapError (fun e => path ++ ": " ++ e) d

def indexed (name : String) (i : Nat) : String := name ++ "[" ++ toString i ++ "]"

def eof : String := "EOF"

def readFixed (n : Nat) : Decoder Bytes := do return (← take eof n).bytes

def readBool : Decoder Bool := do return decide ((← readFixed 1) ≠ [0])
def readInt8 : Decoder Int8 := do return .ofBitVec (.ofNat 8 (beNat (← readFixed 1)))
def readInt16 : Decoder Int16 := do return .ofBitVec (.ofNat 16 (beNat (← readFixed 2)))
def readInt32 : Decoder Int32 := do return .ofBitVec (.ofNat 32 (beNat (← readFixed 4)))
def readInt64 : Decoder Int64 := do return .ofBitVec (.ofNat 64 (beNat (← readFixed 8)))
def readUUID : Decoder UUID := do return .copy (← readFixed 16)

def readByte : Decoder UInt8 := do return (← readFixed 1).headD 0

def readUVarInt : Decoder UInt64 := digitLoop readByte (fail "uvarint: overflow") 10 0 0

def readVarInt : Decoder Int64 := do return unzigzag (← readUVarInt)

/-- `int(n)`. -/
def asInt (n : UInt64) : Int := wrapSigned 64 n.toNat

def readNullableString : Decoder NullableString := do
  let n := (← readInt16).toInt
  if n = -1 then return none
  else if n < 1 then fail "string: invalid length"
  else return some (← take eof n)

def readCompactString : Decoder CompactString := do
  let n ← readUVarInt
  if n - 1 = 0 then return ⟨[], by decide⟩
  else take eof (asInt (n - 1))

def readCompactNullableString : Decoder CompactNullableString := do
  let wl ← readUVarInt
  if wl = 0 then return none
  else
    let n := wrapSigned 64 (asInt wl - 1)
    if n = 0 then return some ⟨[], by decide⟩
    else return some (← take eof n)

/-- `make([]byte, n)` and the copy behind `require`. The lengths that `make` refuses are those that the slice
expression refuses. -/
def readInto (n : Int) : Decoder (Slice UInt8) := do
  let v ← take eof n
  return ⟨v.bytes, by rw [show Sized.size UInt8 = 1 from rfl, Nat.mul_one]; exact v.fits⟩

def readCompactBytes : Decoder CompactBytes := do
  let wl ← readUVarInt
  let n := wrapSigned 64 (asInt wl - 1)
  if n < 0 then fail "bytes: invalid length"
  else readInto n

def readCompactRecords : Decoder CompactRecords := do
  let wl ← readUVarInt
  if wl = 0 then return none
  else
    let n := wrapSigned 64 (asInt wl - 1)
    if n < 0 then fail "compact records: invalid length"
    else return some (← readInto n)

/-- A null array has the length `-1`. -/
def readCompactArrayLen : Decoder Int := do
  let wl ← readUVarInt
  if wl = 0 then return -1
  else return asInt (wl - 1)

section Arrays

variable [Memory]

/-- Memory for `n` bytes. A process that does not get it panics or dies. -/
def allocate (n : Nat) : Decoder (PLift (n ≤ maxAlloc)) := fun c =>
  if room : Allocates n c.remaining then (.ok ⟨room.1⟩, c) else panic c

variable {α : Type} [Sized α]

/-- `xs := make([]T, n)` and a loop that reads into it. -/
def makeSlice (n : Int) (read : Nat → Decoder α) : Decoder (Slice α) :=
  if 0 ≤ n then do
    let room ← allocate (n.toNat * Sized.size α)
    let xs ← each read n.toNat 0
    return ⟨xs.1, by rw [xs.2]; exact room.down⟩
  else panic

def readArray (read : Nat → Decoder α) : Decoder (Slice α) := do makeSlice (← readCompactArrayLen) read

/-- An element, and room for the elements up to it. -/
def readAppend (read : Decoder α) (i : Nat) : Decoder α := do
  let x ← read
  let _ ← allocate ((i + 1) * Sized.size α)
  return x

/-- `for i := 0; i < n; i++` with an append. -/
def growSlice (n : Int) (read : Decoder α) : Decoder (Slice α) := do
  let xs ← each (readAppend read) n.toNat 0
  let room ← allocate (n.toNat * Sized.size α)
  return ⟨xs.1, by rw [xs.2]; exact room.down⟩

def appendArray (read : Decoder α) : Decoder (Slice α) := do growSlice (← readCompactArrayLen) read

end Arrays

def readTag : Decoder (UInt64 × UInt64) := do
  let tag ← readUVarInt
  let size ← readUVarInt
  return (tag, size)

def readTaggedFields : Decoder Unit := do
  let count ← readUVarInt
  repeated (fun _ => do
    let (_, size) ← readTag
    skip eof (asInt size)) count.toNat ()

/-- The bytes are copied, and the position stays. -/
def readRawBytes (n : Int) : Decoder Unit := do
  if ← done then fail eof
  else
    let _ ← peek eof n
    return ()

theorem asInt_small {n : UInt64} (small : n.toNat < 2 ^ 63) : asInt n = n.toNat := wrapSigned_natCast (by decide) small

theorem asInt_large {n : UInt64} (large : 2 ^ 63 ≤ n.toNat) : asInt n = n.toNat - 2 ^ 64 :=
  wrapSigned_over (by exact_mod_cast large) (by have := n.toNat_lt; omega)

theorem pred_toNat {n : UInt64} (positive : n ≠ 0) : (n - 1).toNat = n.toNat - 1 := by
  have : n.toNat ≠ 0 := fun zero => positive (UInt64.toNat_inj.mp zero)
  rw [UInt64.toNat_sub_of_le]
  · rfl
  · rw [UInt64.le_iff_toNat_le]
    show 1 ≤ n.toNat
    omega

theorem asInt_pred {wl : UInt64} (positive : wl ≠ 0) : wrapSigned 64 (asInt wl - 1) = asInt (wl - 1) := by
  have pred := pred_toNat positive
  have bound := wl.toNat_lt
  have nonzero : wl.toNat ≠ 0 := fun zero => positive (UInt64.toNat_inj.mp zero)
  by_cases small : wl.toNat < 2 ^ 63
  · rw [asInt_small small, asInt_small (by omega), pred, wrapSigned_fits (by decide) (by omega) (by omega)]
    omega
  · rw [asInt_large (by omega)]
    by_cases least : wl.toNat = 2 ^ 63
    · rw [asInt_small (by omega), pred, least]
      rfl
    · rw [asInt_large (by omega), pred, wrapSigned_fits (by decide) (by omega) (by omega)]
      omega

theorem asInt_eq_zero {n : UInt64} : asInt n = 0 ↔ n.toNat = 0 := by
  have bound := n.toNat_lt
  by_cases small : n.toNat < 2 ^ 63
  · rw [asInt_small small]
    omega
  · rw [asInt_large (by omega)]
    omega

theorem readFixed_parses {n : Nat} (small : n ≤ 2 ^ 48) : Parses (readFixed n) (takeBytes n) := parses_take eof small

theorem readByte_parses : Parses readByte nextByte.run :=
  ((readFixed_parses (by decide)).bind fun _ => parses_pure _).congr fun left => by
    cases left <;> rfl

theorem readUVarInt_parses : Parses readUVarInt takeUvarint := by
  have loop := digitLoop_related (R := fun (d : Decoder UInt64) (p : StateT Bytes Option UInt64) => Parses d p.run)
    parses_pure (parses_fail "uvarint: overflow") readByte_parses.bind 10 0 0
  exact loop.congr (takeDigits_loop 10 0 0)

def takeInt16 (left : Bytes) : Option (Int16 × Bytes) :=
  (takeBytes 2 left).map fun result => (.ofBitVec (.ofNat 16 (beNat result.1)), result.2)

theorem readInt16_parses : Parses readInt16 takeInt16 :=
  ((readFixed_parses (by decide)).bind fun _ => parses_pure _).congr fun left => by
    cases taken : takeBytes 2 left <;> simp [takeInt16, taken]

def takeTag (left : Bytes) : Option ((UInt64 × UInt64) × Bytes) :=
  (takeUvarint left).bind fun tag => (takeUvarint tag.2).bind fun size => some ((tag.1, size.1), size.2)

theorem readTag_parses : Parses readTag takeTag :=
  readUVarInt_parses.bind fun _ => readUVarInt_parses.bind fun _ => parses_pure _

def takeArrayLen (left : Bytes) : Option (Int × Bytes) :=
  (takeUvarint left).map fun wl => (if wl.1 = 0 then -1 else asInt (wl.1 - 1), wl.2)

theorem readCompactArrayLen_parses : Parses readCompactArrayLen takeArrayLen := by
  have length : ∀ wl : UInt64, Parses (if wl = 0 then return -1 else return asInt (wl - 1) : Decoder Int)
      (fun left => some (if wl = 0 then -1 else asInt (wl - 1), left)) := by
    intro wl
    split
    · exact parses_pure _
    · exact parses_pure _
  refine (readUVarInt_parses.bind length).congr fun left => ?_
  cases taken : takeUvarint left <;> simp [takeArrayLen, taken]

/-! ### The reader of record batches

`Protocol.Read` is the same reader without its position, for the methods that the decoder of batches calls. -/

section Agreement

open Protocol

variable {α β γ δ : Type}

/-- The outcomes of a method in the two models: the same value and the same bytes left, or the same error. -/
inductive Agree (value : β → α) (c : Cursor) : Except Failure α × Bytes → Except (Stop String) β × Cursor → Prop where
  | ok {b : β} {c' : Cursor} {rest : Bytes} (onward : Onward c c' rest) : Agree value c
      (.ok (value b), rest) (.ok b, c')
  | eof {c' : Cursor} {rest : Bytes} (onward : Onward c c' rest) : Agree value c (.error .eof, rest)
      (.error (.error eof), c')
  | overflow {c' : Cursor} {rest : Bytes} (onward : Onward c c' rest) :
      Agree value c (.error .uvarintOverflow, rest) (.error (.error "uvarint: overflow"), c')

def Agrees (value : β → α) (read : Read α) (d : Decoder β) : Prop :=
  ∀ c, c.Forward → Agree value c (read.run.run c.remaining) (d c)

theorem Agree.after {value : β → α} {c c' : Cursor} {rest : Bytes} {out : Except Failure α × Bytes}
    {out' : Except (Stop String) β × Cursor} (first : Onward c c' rest) (agree : Agree value c' out out') :
    Agree value c out out' := by
  cases agree with
  | ok onward => exact .ok (first.trans onward)
  | eof onward => exact .eof (first.trans onward)
  | overflow onward => exact .overflow (first.trans onward)

theorem agrees_pure (value : β → α) (b : β) : Agrees value (pure (value b)) (pure b) :=
  fun _ forward => .ok ⟨forward, rfl, rfl⟩

theorem agrees_overflow (value : β → α) : Agrees value (throw .uvarintOverflow) (fail "uvarint: overflow") :=
  fun _ forward => .overflow ⟨forward, rfl, rfl⟩

theorem Agrees.bind {value : β → α} {result : δ → γ} {read : Read α} {d : Decoder β} {next : α → Read γ}
    {k : β → Decoder δ} (first : Agrees value read d)
    (then_ : ∀ b, (∃ buf rest, read.Gives buf (value b) rest) → Agrees result (next (value b)) (k b)) :
    Agrees result (read >>= next) (d >>= k) := by
  intro c forward
  have here := first c forward
  generalize ran : read.run.run c.remaining = outcome at here
  generalize ran' : d c = outcome' at here
  cases here with
  | @ok b c' rest onward =>
    rw [Read.run_ok ran, bind_ok ran']
    have there := then_ b ⟨_, _, ran⟩ c' onward.forward
    rw [onward.remaining] at there
    exact there.after onward
  | eof onward =>
    rw [Read.run_error ran, bind_error ran']
    exact .eof onward
  | overflow onward =>
    rw [Read.run_error ran, bind_error ran']
    exact .overflow onward

theorem agrees_fixed {n : Nat} (small : n ≤ 2 ^ 48) : Agrees id (Read.take n) (readFixed n) := by
  intro c forward
  obtain ⟨v, bytes, ran⟩ := take_apply forward eof (n := (n : Int)) (by omega) (by omega)
  have fits := c.buff.fits
  have bounds := forward.bounds
  unfold Cursor.size at bounds
  rw [if_pos (by omega)] at ran
  rw [Read.take_run]
  by_cases short : c.remaining.length < n
  · rw [if_neg (by omega)] at ran
    rw [if_pos short, readFixed, bind_error ran]
    exact .eof ⟨forward, rfl, rfl⟩
  · rw [if_pos (by omega)] at ran
    rw [if_neg short, readFixed, bind_ok ran, ← Int.toNat_natCast n, ← bytes, Int.toNat_natCast]
    exact .ok (onward_moved forward (Nat.not_lt.mp short))

theorem agrees_value {n : Nat} (small : n ≤ 2 ^ 48) {value : β → α} {f : Bytes → α} {g : Bytes → β}
    (same : ∀ bs, bs.length = n → f bs = value (g bs)) :
    Agrees value (do return f (← Read.take n)) (do return g (← readFixed n)) := by
  refine (agrees_fixed small).bind fun bs ⟨buf, rest, given⟩ => ?_
  obtain ⟨room, taken, _⟩ := Read.gives_take given
  have length : bs.length = n := by
    rw [show bs = slice buf 0 n from taken, slice, List.length_take, List.drop_zero, Nat.min_eq_left room]
  rw [id, same bs length]
  exact agrees_pure value _

theorem agrees_uvarint : Agrees id Read.uvarint readUVarInt := by
  have byte : Agrees id Read.byte readByte := agrees_value (by decide) fun _ _ => rfl
  exact digitLoop_related (R := fun read d => Agrees id read d) (agrees_pure id) (agrees_overflow id)
    (fun next => byte.bind fun b _ => next b) 10 0 0

theorem signed_beNat {w : Nat} {bs : Bytes} (positive : 0 < w) (length : 8 * bs.length = w) :
    signed w (beNat bs) = (BitVec.ofNat w (beNat bs)).toInt := by
  have small : beNat bs < 2 ^ w := by
    rw [← length, Nat.pow_mul]
    exact beNat_lt bs
  have half : 2 ^ w = 2 * 2 ^ (w - 1) := by rw [← Nat.pow_succ', Nat.succ_eq_add_one, Nat.sub_add_cancel positive]
  have cast : ((2 ^ w : Nat) : Int) = 2 ^ w := by norm_cast
  rw [BitVec.toInt_eq_toNat_cond, BitVec.toNat_ofNat, Nat.mod_eq_of_lt small]
  unfold signed
  split
  · rw [if_pos (by omega)]
  · rw [if_neg (by omega), cast]

/-- The methods that both models have agree, from any position in any buffer. -/
theorem readers_agree : Agrees Int8.toInt Read.int8 readInt8 ∧ Agrees Int16.toInt Read.int16 readInt16 ∧
    Agrees Int32.toInt Read.int32 readInt32 ∧ Agrees Int64.toInt Read.int64 readInt64 ∧
    Agrees id Read.uvarint readUVarInt ∧ Agrees Int64.toInt Read.varint readVarInt := by
  refine ⟨agrees_value (by decide) ?_, agrees_value (by decide) ?_, agrees_value (by decide) ?_,
    agrees_value (by decide) ?_, agrees_uvarint, agrees_uvarint.bind fun uv _ => agrees_pure Int64.toInt _⟩
  all_goals exact fun bs length => signed_beNat (by decide) (by rw [length])

end Agreement

def writeBool (b : Bool) : Bytes := if b then [1] else [0]
def writeInt8 (v : Int8) : Bytes := beBytes 1 v.toBitVec.toNat
def writeInt16 (v : Int16) : Bytes := beBytes 2 v.toBitVec.toNat
def writeInt32 (v : Int32) : Bytes := beBytes 4 v.toBitVec.toNat
def writeInt64 (v : Int64) : Bytes := beBytes 8 v.toBitVec.toNat
def writeUVarInt (v : UInt64) : Bytes := uvarintBytes v
def writeUUID (v : UUID) : Bytes := v.bytes

/-- `(bits.Len64(v) + 6) / 7`. -/
def uvarIntSize (v : UInt64) : Nat := if v = 0 then 1 else (v.toNat.log2 + 1 + 6) / 7

def writeCompact (bs : Bytes) : Bytes := writeUVarInt (.ofNat (bs.length + 1)) ++ bs

def writeCompactString (s : CompactString) : Bytes := writeCompact s.bytes

def writeCompactNullableString : CompactNullableString → Bytes
  | none => writeUVarInt 0
  | some s => writeCompact s.bytes

def writeCompactRecords : CompactRecords → Bytes
  | none => writeUVarInt 0
  | some records => writeCompact records.elems

def writeCompactArrayLen (n : Nat) : Bytes := writeUVarInt (.ofNat n + 1)

def writeEmptyTaggedFields : Bytes := [0]

def writeCompactArray {α : Type} [Sized α] (xs : Slice α) (write : α → Bytes) : Bytes :=
  writeCompactArrayLen xs.elems.length ++ xs.elems.flatMap write

def writeTag (tag : UInt64) (payload : Bytes) : Bytes :=
  writeUVarInt tag ++ writeUVarInt (.ofNat payload.length) ++ payload

end KafGo.Wire
