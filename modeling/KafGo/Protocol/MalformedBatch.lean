import KafGo.Lib.Route
import KafGo.Protocol.RecordBatch

/-!
# Record batches that cannot be read

A batch may announce any lengths and break off anywhere. The decoder allocates what a length announces before it looks
for the bytes, and it ignores the errors of the reads that make up a header. The routes say where it panics for that,
and where it takes a batch that has broken off for a whole one.
-/

namespace KafGo.Protocol
open Lib

/-! ### What reads leave -/

namespace Read

variable {α β : Type}

theorem take_one (b : UInt8) (rest : Bytes) : (take 1).run.run (b :: rest) = (.ok [b], rest) := by
  rw [take_run, if_neg (by simp)]
  rfl

theorem byte_run (b : UInt8) (rest : Bytes) : byte.run.run (b :: rest) = (.ok b, rest) := run_ok (take_one b rest)

theorem uvarintLoop_cons (turns : Nat) (result shift : UInt64) (b : UInt8) (rest : Bytes) :
    (uvarintLoop (turns + 1) result shift).run.run (b :: rest) =
      if shift = 63 ∧ b > 1 then (.error .uvarintOverflow, rest)
      else if b < 0x80 then (.ok (pushDigit result shift b), rest)
      else (uvarintLoop turns (pushDigit result shift b) (shift + 7)).run.run rest := by
  rw [uvarintLoop, digitLoop, run_ok (byte_run b rest)]
  split
  · rfl
  · split <;> rfl

theorem uvarintLoop_some {turns : Nat} {result shift w : UInt64} {buf rest : Bytes}
    (taken : takeDigits turns result shift buf = some (w, rest)) :
    (uvarintLoop turns result shift).run.run buf = (.ok w, rest) := by
  rw [← takeDigits_loop] at taken
  revert taken
  refine digitLoop_related (R := fun (read : Read UInt64) (p : StateT Bytes Option UInt64) =>
    ∀ buf, p.run buf = some (w, rest) → read.run.run buf = (.ok w, rest)) ?_ ?_ ?_ turns result shift buf
  · intro v buf here
    cases here
    rfl
  · intro buf here
    cases here
  · intro f g next buf here
    cases buf with
    | nil => cases here
    | cons b buf =>
      rw [run_ok (byte_run b buf)]
      exact next b buf here

theorem uvarintLoop_none {turns : Nat} {result shift : UInt64} {buf : Bytes} (few : turns ≤ 10)
    (digits : shift.toNat = 7 * (10 - turns)) (lost : takeDigits turns result shift buf = none) :
    (uvarintLoop turns result shift).run.run buf =
      if buf.length < turns then (.error .eof, []) else (.error .uvarintOverflow, buf.drop turns) := by
  induction turns generalizing result shift buf with
  | zero => rfl
  | succ turns ih =>
    cases buf with
    | nil =>
      rw [if_pos (by simp)]
      exact run_error rfl
    | cons b buf =>
      rw [takeDigits] at lost
      rw [uvarintLoop_cons]
      by_cases overflows : shift = 63 ∧ b > 1
      · obtain rfl : turns = 0 := by
          have full : shift.toNat = 63 := by rw [overflows.1]; rfl
          omega
        rw [if_pos overflows, if_neg (by simp)]
        rfl
      · rw [if_neg overflows] at lost ⊢
        by_cases last : b < 0x80
        · rw [if_pos last] at lost
          cases lost
        · rw [if_neg last] at lost ⊢
          have next : (shift + 7).toNat = 7 * (10 - turns) := by
            rw [UInt64.toNat_add]
            show (shift.toNat + 7) % 2 ^ 64 = _
            omega
          rw [ih (by omega) next lost]
          simp only [List.length_cons, Nat.add_lt_add_iff_right, List.drop_succ_cons]

variable {buf : Bytes}

def decoded (w : UInt64) : Int := (unzigzag w).toInt

theorem varint_some {w : UInt64} {rest : Bytes} (found : takeUvarint buf = some (w, rest)) :
    varint.run.run buf = (.ok (decoded w), rest) := run_ok (uvarintLoop_some found)

theorem varint_none (lost : takeUvarint buf = none) : varint.run.run buf =
    if buf.length < 10 then (.error .eof, []) else (.error .uvarintOverflow, buf.drop 10) := by
  have ran := uvarintLoop_none (Nat.le_refl 10) rfl lost
  by_cases short : buf.length < 10
  · rw [if_pos short] at ran ⊢
    exact run_error ran
  · rw [if_neg short] at ran ⊢
    exact run_error ran

theorem varint_fails (lost : takeUvarint buf = none) :
    ∃ e rest, varint.run.run buf = (.error e, rest) ∧ e ≠ .panics := by
  rw [varint_none lost]
  split
  · exact ⟨.eof, _, rfl, by decide⟩
  · exact ⟨.uvarintOverflow, _, rfl, by decide⟩

theorem orZero_ok {read : Read Int} {n : Int} {rest : Bytes} (ran : read.run.run buf = (.ok n, rest)) :
    (orZero read).run.run buf = (.ok n, rest) := by
  rw [orZero, ExceptT.run_tryCatch, StateT.run_bind, ran]
  rfl

theorem orZero_error {read : Read Int} {e : Failure} {rest : Bytes} (ran : read.run.run buf = (.error e, rest)) :
    (orZero read).run.run buf = (.ok 0, rest) := by
  rw [orZero, ExceptT.run_tryCatch, StateT.run_bind, ran]
  rfl

end Read

theorem readEach_run (n : Nat) (buf : Bytes) : (readEach n).run.run buf =
    if n ≤ buf.length then (.ok (buf.take n), buf.drop n) else (.error .eof, []) := by
  induction n generalizing buf with
  | zero => rfl
  | succ n ih =>
    cases buf with
    | nil => exact Read.run_error rfl
    | cons b buf =>
      rw [readEach, Read.run_ok (Read.take_one b buf)]
      have later := ih buf
      simp only [List.length_cons, Nat.add_le_add_iff_right, List.take_succ_cons, List.drop_succ_cons]
      by_cases room : n ≤ buf.length
      · rw [if_pos room] at later ⊢
        exact Read.run_ok later
      · rw [if_neg room] at later ⊢
        exact Read.run_error later

theorem readEachOrZero_whole {n : Nat} {buf : Bytes} (room : n ≤ buf.length) :
    (readEachOrZero n).run.run buf = (.ok (buf.take n), buf.drop n) := by
  induction n generalizing buf with
  | zero => rfl
  | succ n ih =>
    cases buf with
    | nil => cases room
    | cons b buf =>
      have first : (tryCatch (Read.take 1) fun _ => pure [0] : Read Bytes).run.run (b :: buf) = (.ok [b], buf) := by
        rw [ExceptT.run_tryCatch, StateT.run_bind, Read.take_one]
        rfl
      rw [readEachOrZero, Read.run_ok first]
      exact Read.run_ok (ih (Nat.le_of_succ_le_succ room))

theorem readEachOrZero_short {n : Nat} {buf : Bytes} (short : buf.length ≤ n) :
    ∃ bs, (readEachOrZero n).run.run buf = (.ok bs, []) := by
  induction n generalizing buf with
  | zero =>
    rw [List.length_eq_zero_iff.mp (Nat.le_zero.mp short)]
    exact ⟨[], rfl⟩
  | succ n ih =>
    obtain ⟨b, first⟩ : ∃ b, (tryCatch (Read.take 1) fun _ => pure [0] : Read Bytes).run.run buf =
        (.ok b, buf.drop 1) := by
      cases buf with
      | nil => exact ⟨[0], rfl⟩
      | cons b buf => exact ⟨[b], rfl⟩
    have left : (buf.drop 1).length ≤ n := by
      rw [List.length_drop]
      omega
    obtain ⟨bs, later⟩ := ih left
    exact ⟨b ++ bs, by rw [readEachOrZero, Read.run_ok first]; exact Read.run_ok later⟩

section Routes

variable [Memory]

/-- `orZero` for all errors but the end of the bytes. -/
def Read.orZeroBeforeEnd (read : Read Int) : Read Int :=
  tryCatch read fun e => if e = .eof then throw .eof else pure 0

def headerPart : Read Bytes := do readEachOrZero (← makeBytes (← Read.orZero Read.varint))

def wholeHeaderPart : Read Bytes := do readEach (← makeBytes (← Read.orZeroBeforeEnd Read.varint))

theorem decodeHeaders_succ (n : Nat) (headers : List (Bytes × Bytes)) : decodeHeaders (n + 1) headers = (do
    let k ← headerPart
    let v ← headerPart
    decodeHeaders n (setHeader headers k v)) := by
  simp only [decodeHeaders, headerPart, bind_assoc]

/-- The headers of a record, where bytes that are missing are an error as they are in the other fields. -/
def wholeHeaders : Nat → List (Bytes × Bytes) → Read (List (Bytes × Bytes))
  | 0, headers => pure headers
  | n + 1, headers => do
    let k ← wholeHeaderPart
    let v ← wholeHeaderPart
    wholeHeaders n (setHeader headers k v)

def recordWith (headers : Nat → Read (List (Bytes × Bytes))) : Read BatchRecord := do
  let _length ← Read.varint
  let _attributes ← Read.int8
  let timestampDelta ← Read.varint
  let offsetDelta ← Read.varint
  let key ← decodeField
  let value ← decodeField
  let headerCount ← Read.varint
  Read.makeMap headerCount
  return ⟨timestampDelta, offsetDelta, key, value, ← headers headerCount.toNat⟩

theorem decodeRecord_eq : decodeRecord = recordWith fun headerCount => decodeHeaders headerCount [] := rfl

def wholeRecords : Nat → Read (List BatchRecord)
  | 0 => pure []
  | n + 1 => do
    let record ← recordWith fun headerCount => wholeHeaders headerCount []
    return record :: (← wholeRecords n)

def batchWith (records : Nat → Read (List BatchRecord)) (snappy : Bytes → Option Bytes) (raw : Bytes) :
    Except Failure RecordBatch :=
  let read : Read RecordBatch := do
    let (batch, recordCount) ← decodeHeader
    let count ← Read.make 72 recordCount
    let rawDataRecords ← Read.rawBytes (← Read.remaining)
    let dataRecords ← ExceptT.mk (pure (decompress snappy batch.attributes rawDataRecords))
    set dataRecords
    return { batch with records := ← records count }
  (read.run.run raw).1

theorem decodeRecordBatch_eq : decodeRecordBatch = batchWith decodeRecords := rfl

namespace RecordRoute
open Read (decoded)

def fixed (n : Nat) : Route := fun _ left => if n ≤ left.length then .reaches (left.drop n) else .ends

def varint : Route := .parsed takeUvarint fun _ => .stay

/-- A key or a value: a length that the allocation refuses leads astray. -/
def field : Route := .parsed takeUvarint fun w =>
  if decoded w ≤ 0 then .stay else (Route.room (decoded w).toNat).andThen (fixed (decoded w).toNat)

/-- A key or a value of a header, and the trip if the bytes end in it. A length of more than ten digits counts as
zero. -/
def headerPart (cut : Trip) : Route := fun _ left => match takeUvarint left with
  | none => if left.length < 10 then cut else .reaches (left.drop 10)
  | some (w, rest) =>
    if decoded w < 0 ∨ ¬ Allocates (decoded w).toNat rest then .strays
    else if (decoded w).toNat ≤ rest.length then .reaches (rest.drop (decoded w).toNat)
    else cut

def headers (cut : Trip) : Nat → Route
  | 0 => .stay
  | n + 1 => .all [headerPart cut, headerPart cut, headers cut n]

def map (n : Int) : Route := fun _ left =>
  if Memory.mapBytes n.toNat > Memory.free left then .strays else .reaches left

def headerMap (cut : Trip) : Route :=
  .parsed takeUvarint fun w => (map (decoded w)).andThen (headers cut (decoded w).toNat)

def record (cut : Trip) : Route := .all [varint, fixed 1, varint, varint, field, field, headerMap cut]

/-- If the bytes end in the headers of a record, the next record ends there. After the last one nothing does. -/
def records : Nat → Route
  | 0 => .stay
  | 1 => record .strays
  | n + 2 => (record (.reaches [])).andThen (records (n + 1))

end RecordRoute

end Routes

/-! ### The decoder goes the way of the routes -/

section Tracks

variable {α β : Type} {cut : Trip}

/-- What a read that goes the way of a trip gives. -/
def Goes (out : Except Failure α × Bytes) : Trip → Prop
  | .ends => ∃ e rest, out = (.error e, rest) ∧ e ≠ .panics
  | .strays => ∃ rest, out = (.error .panics, rest)
  | .reaches rest => ∃ a, out = (.ok a, rest)

/-- A read and the one that reports the end of the bytes: they give the same, or the first gives a value where the
second has found the end, and the trip is `cut`. -/
def Tracks (cut : Trip) (read whole : Read α) (route : Route) : Prop := ∀ size buf,
  (whole.run.run buf = read.run.run buf ∧ Goes (read.run.run buf) (route size buf)) ∨
    ((∃ a, read.run.run buf = (.ok a, [])) ∧ whole.run.run buf = (.error .eof, []) ∧ route size buf = cut)

theorem tracks_pure (a : α) : Tracks cut (pure a) (pure a) .stay := fun _ _ => .inl ⟨rfl, a, rfl⟩

theorem Tracks.goes {read : Read α} {route : Route} (tracks : Tracks cut read read route) (size : Nat) (buf : Bytes) :
    Goes (read.run.run buf) (route size buf) := by
  rcases tracks size buf with ⟨_, goes⟩ | ⟨⟨a, given⟩, failed, _⟩
  · exact goes
  · rw [given] at failed
    cases failed

section Bind

variable {read whole : Read α} {next wholeNext : α → Read β} {r s : Route}

theorem goes_bind {size : Nat} {buf : Bytes} (same : whole.run.run buf = read.run.run buf)
    (goes : Goes (read.run.run buf) (r size buf)) (later : ∀ a, Tracks cut (next a) (wholeNext a) s) :
    ((whole >>= wholeNext).run.run buf = (read >>= next).run.run buf ∧
        Goes ((read >>= next).run.run buf) (r.andThen s size buf)) ∨
      ((∃ b, (read >>= next).run.run buf = (.ok b, [])) ∧ (whole >>= wholeNext).run.run buf = (.error .eof, []) ∧
        r.andThen s size buf = cut) := by
  unfold Route.andThen
  cases trip : r size buf with
  | ends =>
    rw [trip] at goes
    obtain ⟨e, rest, ran, harmless⟩ := goes
    rw [ran] at same
    rw [Read.run_error ran, Read.run_error same]
    exact .inl ⟨rfl, e, rest, rfl, harmless⟩
  | strays =>
    rw [trip] at goes
    obtain ⟨rest, ran⟩ := goes
    rw [ran] at same
    rw [Read.run_error ran, Read.run_error same]
    exact .inl ⟨rfl, rest, rfl⟩
  | reaches rest =>
    rw [trip] at goes
    obtain ⟨a, ran⟩ := goes
    rw [ran] at same
    rw [Read.run_ok ran, Read.run_ok same]
    exact later a size rest

theorem tracks_bind (first : Tracks cut read read r) (later : ∀ a, Tracks cut (next a) (wholeNext a) s) :
    Tracks cut (read >>= next) (read >>= wholeNext) (r.andThen s) :=
  fun size buf => goes_bind rfl (first.goes size buf) later

/-- After the end, a read that gives a value of its own from no bytes does not change the outcome. -/
theorem tracks_past_end (first : Tracks cut read whole r) (later : ∀ a, Tracks cut (next a) (wholeNext a) s)
    (ended : ∀ a, ∃ b, (next a).run.run [] = (.ok b, [])) (final : cut = .strays ∨ cut = .reaches [])
    (stays : cut = .reaches [] → ∀ size, s size [] = cut) :
    Tracks cut (read >>= next) (whole >>= wholeNext) (r.andThen s) := by
  intro size buf
  rcases first size buf with ⟨same, goes⟩ | ⟨⟨a, given⟩, failed, trip⟩
  · exact goes_bind same goes later
  · obtain ⟨b, more⟩ := ended a
    refine .inr ⟨⟨b, (Read.run_ok given).trans more⟩, Read.run_error failed, ?_⟩
    unfold Route.andThen
    rw [trip]
    rcases final with rfl | rfl
    · rfl
    · exact stays rfl size

theorem tracks_last (f : α → β) (tracks : Tracks cut read whole r) :
    Tracks cut (do return f (← read)) (do return f (← whole)) r := by
  intro size buf
  rcases tracks size buf with ⟨same, goes⟩ | ⟨⟨a, given⟩, failed, trip⟩
  · have given : ∀ a, Tracks cut (pure (f a)) (pure (f a)) .stay := fun a => tracks_pure (f a)
    have last := goes_bind same goes given
    rwa [Route.andThen_stay] at last
  · exact .inr ⟨⟨f a, Read.run_ok given⟩, Read.run_error failed, trip⟩

end Bind

theorem Tracks.reports_iff {read whole : Read α} {route : Route} (tracks : Tracks .strays read whole route)
    (f : α → β) (size : Nat) (buf : Bytes) :
    ((read.run.run buf).1.map f ≠ .error .panics ∧ ((whole.run.run buf).1.map f = .error .eof →
      ∃ e, (read.run.run buf).1.map f = .error e)) ↔ route size buf ≠ .strays := by
  rcases tracks size buf with ⟨same, goes⟩ | ⟨⟨a, given⟩, failed, trip⟩
  · rw [same]
    cases trip : route size buf with
    | ends =>
      rw [trip] at goes
      obtain ⟨e, rest, ran, harmless⟩ := goes
      rw [ran]
      exact iff_of_true ⟨fun panicked => harmless (Except.error.inj panicked), fun _ => ⟨e, rfl⟩⟩ (by decide)
    | strays =>
      rw [trip] at goes
      obtain ⟨rest, ran⟩ := goes
      rw [ran]
      exact iff_of_false (fun reports => reports.1 rfl) fun stays => stays rfl
    | reaches rest =>
      rw [trip] at goes
      obtain ⟨a, ran⟩ := goes
      rw [ran]
      refine iff_of_true ⟨?_, ?_⟩ ?_
      · rintro ⟨⟩
      · rintro ⟨⟩
      · rintro ⟨⟩
  · rw [given, failed, trip]
    refine iff_of_false (fun reports => ?_) fun stays => stays rfl
    obtain ⟨e, reported⟩ := reports.2 rfl
    cases reported

open RecordRoute Read

theorem tracks_fixed (n : Nat) (f : Bytes → α) :
    Tracks cut (do return f (← take n)) (do return f (← take n)) (fixed n) := by
  intro size buf
  refine .inl ⟨rfl, ?_⟩
  unfold fixed
  have ran := take_run n buf
  by_cases room : n ≤ buf.length
  · rw [if_neg (by omega)] at ran
    rw [if_pos room]
    exact ⟨_, run_ok ran⟩
  · rw [if_pos (by omega)] at ran
    rw [if_neg room]
    exact ⟨_, _, run_error ran, by decide⟩

theorem tracks_varint {next wholeNext : Int → Read β} {later : UInt64 → Route}
    (tracks : ∀ w, Tracks cut (next (decoded w)) (wholeNext (decoded w)) (later w)) :
    Tracks cut (varint >>= next) (varint >>= wholeNext) (.parsed takeUvarint later) := by
  intro size buf
  unfold Route.parsed
  cases found : takeUvarint buf with
  | some result =>
    rw [run_ok (varint_some found), run_ok (varint_some found)]
    exact tracks result.1 size result.2
  | none =>
    obtain ⟨e, rest, ran, harmless⟩ := varint_fails found
    rw [run_error ran, run_error ran]
    exact .inl ⟨rfl, e, rest, rfl, harmless⟩

theorem varint_tracks : Tracks cut varint varint RecordRoute.varint := by
  have given : ∀ w, Tracks cut (pure (decoded w)) (pure (decoded w)) .stay := fun w => tracks_pure _
  have read := tracks_varint given
  rwa [bind_pure] at read

theorem readEach_tracks (n : Nat) : Tracks cut (readEach n) (readEach n) (fixed n) := by
  intro size buf
  rw [readEach_run]
  refine .inl ⟨rfl, ?_⟩
  unfold fixed
  split
  · exact ⟨_, rfl⟩
  · exact ⟨_, _, rfl, by decide⟩

theorem fixed_andThen (m n : Nat) : (fixed m).andThen (fixed n) = fixed (m + n) := by
  funext size buf
  unfold Route.andThen fixed
  by_cases first : m ≤ buf.length
  · rw [if_pos first]
    dsimp only
    by_cases both : m + n ≤ buf.length
    · rw [if_pos (by rw [List.length_drop]; omega), if_pos both, List.drop_drop]
    · rw [if_neg (by rw [List.length_drop]; omega), if_neg both]
  · rw [if_neg first, if_neg (by omega)]

theorem decodeHeader_tracks : Tracks .strays decodeHeader decodeHeader (fixed 61) := by
  have fields : Route.all [fixed 8, fixed 4, fixed 4, fixed 1, fixed 4, fixed 2, fixed 4, fixed 8, fixed 8, fixed 8,
      fixed 2, fixed 4, fixed 4] = fixed 61 := by
    simp only [Route.all, Route.andThen_stay, fixed_andThen]
  rw [← fields]
  unfold decodeHeader
  iterate 12 refine tracks_bind (tracks_fixed _ _) fun _ => ?_
  rw [show Route.all [fixed 4] = fixed 4 from Route.andThen_stay _]
  exact tracks_last _ (tracks_fixed 4 _)

variable [Memory]

theorem makeBytes_run (n : Int) (buf : Bytes) : (makeBytes n).run.run buf =
    if n < 0 ∨ ¬ Allocates n.toNat buf then (.error .panics, buf) else (.ok n.toNat, buf) := by
  have made := make_run 1 n buf
  rwa [Nat.mul_one] at made

theorem makeMap_tracks (n : Int) : Tracks cut (makeMap n) (makeMap n) (RecordRoute.map n) := by
  intro size buf
  refine .inl ⟨rfl, ?_⟩
  show Goes ((if Memory.mapBytes n.toNat > Memory.free buf then _ else _ : Read Unit).run.run buf) _
  unfold RecordRoute.map
  split
  · exact ⟨_, rfl⟩
  · exact ⟨_, rfl⟩

theorem decodeField_tracks : Tracks cut decodeField decodeField field := by
  refine tracks_varint fun w => ?_
  by_cases none : decoded w ≤ 0
  · rw [if_neg (by omega), if_pos none]
    exact tracks_pure []
  · rw [if_pos (by omega), if_neg none]
    intro size buf
    have made := makeBytes_run (decoded w) buf
    unfold Route.andThen Route.room
    by_cases fits : Allocates (decoded w).toNat buf
    · rw [if_neg (by rintro (negative | refused); exacts [by omega, refused fits])] at made
      rw [if_pos fits, run_ok made]
      exact readEach_tracks _ size buf
    · rw [if_pos (.inr fits)] at made
      rw [if_neg fits, run_error made]
      exact .inl ⟨rfl, _, rfl⟩

theorem headerPart_none {buf rest : Bytes} {e : Failure} (failed : varint.run.run buf = (.error e, rest)) :
    Protocol.headerPart.run.run buf = (.ok [], rest) := by
  have made := makeBytes_run 0 rest
  rw [if_neg (by rintro (negative | refused); exacts [by omega, refused (allocates_zero rest)])] at made
  unfold Protocol.headerPart
  rw [run_ok (orZero_error failed), run_ok made]
  rfl

theorem headerPart_tracks : Tracks cut headerPart wholeHeaderPart (RecordRoute.headerPart cut) := by
  intro size buf
  unfold Protocol.headerPart wholeHeaderPart RecordRoute.headerPart
  cases found : takeUvarint buf with
  | none =>
    have ran := varint_none found
    by_cases short : buf.length < 10
    · rw [if_pos short] at ran
      have failed : (orZeroBeforeEnd varint).run.run buf = (.error .eof, []) := by
        rw [orZeroBeforeEnd, ExceptT.run_tryCatch, StateT.run_bind, ran]
        rfl
      rw [run_error failed, if_pos short]
      exact .inr ⟨⟨[], headerPart_none ran⟩, rfl, rfl⟩
    · rw [if_neg short] at ran
      have passed : (orZeroBeforeEnd varint).run.run buf = (.ok 0, buf.drop 10) := by
        rw [orZeroBeforeEnd, ExceptT.run_tryCatch, StateT.run_bind, ran]
        rfl
      rw [run_ok (orZero_error ran), run_ok passed, if_neg short]
      exact .inl ⟨rfl, [], rfl⟩
  | some result =>
    have ran := varint_some found
    have passed : (orZeroBeforeEnd varint).run.run buf = (.ok (decoded result.1), result.2) := by
      rw [orZeroBeforeEnd, ExceptT.run_tryCatch, StateT.run_bind, ran]
      rfl
    have made := makeBytes_run (decoded result.1) result.2
    rw [run_ok (orZero_ok ran), run_ok passed]
    by_cases refused : decoded result.1 < 0 ∨ ¬ Allocates (decoded result.1).toNat result.2
    · rw [if_pos refused] at made
      rw [run_error made, run_error made]
      dsimp only
      rw [if_pos refused]
      exact .inl ⟨rfl, _, rfl⟩
    · rw [if_neg refused] at made
      rw [run_ok made, run_ok made, readEach_run]
      dsimp only
      rw [if_neg refused]
      by_cases room : (decoded result.1).toNat ≤ result.2.length
      · rw [if_pos room, if_pos room, readEachOrZero_whole room]
        exact .inl ⟨rfl, _, rfl⟩
      · rw [if_neg room, if_neg room]
        exact .inr ⟨readEachOrZero_short (by omega), rfl, rfl⟩

theorem decodeHeaders_nil (n : Nat) (headers : List (Bytes × Bytes)) :
    ∃ all, (decodeHeaders n headers).run.run [] = (.ok all, []) := by
  induction n generalizing headers with
  | zero => exact ⟨headers, rfl⟩
  | succ n ih =>
    have part : Protocol.headerPart.run.run [] = (.ok [], []) := headerPart_none rfl
    rw [decodeHeaders_succ, run_ok part, run_ok part]
    exact ih _

theorem headers_nil (n size : Nat) : headers (.reaches []) n size [] = .reaches [] := by
  induction n with
  | zero => rfl
  | succ n ih =>
    show ((headers (.reaches []) n).andThen .stay) size [] = _
    rw [Route.andThen_stay, ih]

theorem decodeHeaders_tracks (final : cut = .strays ∨ cut = .reaches []) (n : Nat) (hs : List (Bytes × Bytes)) :
    Tracks cut (decodeHeaders n hs) (wholeHeaders n hs) (headers cut n) := by
  induction n generalizing hs with
  | zero => exact tracks_pure hs
  | succ n ih =>
    rw [decodeHeaders_succ]
    unfold headers
    have rest : Route.all [headers cut n] = headers cut n := Route.andThen_stay _
    have stays : cut = .reaches [] → ∀ size, headers cut n size [] = cut := by
      rintro rfl size
      exact headers_nil n size
    refine tracks_past_end headerPart_tracks (fun k => ?_) (fun k => ?_) final ?_
    · refine tracks_past_end headerPart_tracks (fun v => ?_) (fun v => decodeHeaders_nil n _) final ?_
      · rw [rest]
        exact ih _
      · rw [rest]
        exact stays
    · have part : Protocol.headerPart.run.run [] = (.ok [], []) := headerPart_none rfl
      rw [run_ok part]
      exact decodeHeaders_nil n _
    · rintro rfl size
      show Route.all [headers (.reaches []) n] size [] = _
      rw [rest]
      exact headers_nil n size

theorem recordWith_tracks {read whole : Nat → Read (List (Bytes × Bytes))}
    (tracks : ∀ n, Tracks cut (read n) (whole n) (headers cut n)) :
    Tracks cut (recordWith read) (recordWith whole) (record cut) := by
  unfold recordWith record
  refine tracks_bind varint_tracks fun _ => ?_
  refine tracks_bind (tracks_fixed 1 _) fun _ => ?_
  refine tracks_bind varint_tracks fun _ => ?_
  refine tracks_bind varint_tracks fun _ => ?_
  refine tracks_bind decodeField_tracks fun _ => ?_
  refine tracks_bind decodeField_tracks fun _ => ?_
  rw [show Route.all [headerMap cut] = headerMap cut from Route.andThen_stay _]
  exact tracks_varint fun w => tracks_bind (makeMap_tracks _) fun _ => tracks_last _ (tracks (decoded w).toNat)

theorem decodeRecord_tracks (final : cut = .strays ∨ cut = .reaches []) :
    Tracks cut decodeRecord (recordWith fun headerCount => wholeHeaders headerCount []) (record cut) := by
  rw [decodeRecord_eq]
  exact recordWith_tracks fun n => decodeHeaders_tracks final n []

theorem records_nil (n size : Nat) : records (n + 1) size [] = .ends := by
  cases n <;> rfl

theorem decodeRecords_tracks (n : Nat) : Tracks .strays (decodeRecords n) (wholeRecords n) (records n) := by
  match n with
  | 0 => exact tracks_pure []
  | 1 => exact tracks_last (fun record => [record]) (decodeRecord_tracks (.inl rfl))
  | n + 2 =>
    have others := decodeRecords_tracks (n + 1)
    intro size buf
    rcases decodeRecord_tracks (.inr rfl) size buf with ⟨same, goes⟩ | ⟨⟨record, given⟩, failed, trip⟩
    · exact goes_bind same goes fun record => tracks_last _ others
    · -- The headers have run to the end, and the next record finds no byte.
      have ended : (decodeRecords (n + 1)).run.run [] = (.error .eof, []) := run_error rfl
      have read : (decodeRecords (n + 2)).run.run buf = (.error .eof, []) := (run_ok given).trans (run_error ended)
      have whole : (wholeRecords (n + 2)).run.run buf = (.error .eof, []) := run_error failed
      have stops : records (n + 2) size buf = .ends := by
        unfold records Route.andThen
        rw [trip]
        exact records_nil n size
      rw [read, whole, stops]
      exact .inl ⟨rfl, _, _, rfl, by decide⟩

end Tracks

/-! ### Whole batches -/

def rawRecordCount (raw : Bytes) : Int := signed 32 (beNat (slice raw 57 4))

/-- The compression codec: the three low bits of the attributes. -/
def rawCodec (raw : Bytes) : Nat := beNat (slice raw 21 2) % 8

def recordData (snappy : Bytes → Option Bytes) (raw : Bytes) : Option Bytes :=
  if rawCodec raw = 0 then some (raw.drop 61) else if rawCodec raw = 2 then snappy (raw.drop 61) else none

theorem length_drop_header {raw : Bytes} : raw.drop 61 = [] ↔ raw.length ≤ 61 := List.drop_eq_nil_iff

theorem unsigned_signed {n : Nat} (small : n < 2 ^ 16) : unsigned 16 (signed 16 n) = n := by
  unfold unsigned signed
  split <;> omega

theorem decompress_cases (snappy : Bytes → Option Bytes) {raw : Bytes} {attributes : Int}
    (bits : attributes = signed 16 (beNat (slice raw 21 2))) :
    (rawCodec raw ∈ [1, 3, 4] ∧ decompress snappy attributes (raw.drop 61) = .error .panics) ∨
      (rawCodec raw ∉ [1, 3, 4] ∧ recordData snappy raw = none ∧
        ∃ e, decompress snappy attributes (raw.drop 61) = .error e ∧ e ≠ .panics) ∨
      (rawCodec raw ∉ [1, 3, 4] ∧
        ∃ data, recordData snappy raw = some data ∧ decompress snappy attributes (raw.drop 61) = .ok data) := by
  have word : beNat (slice raw 21 2) < 2 ^ 16 := by
    have bound := beNat_lt (slice raw 21 2)
    have size : (slice raw 21 2).length ≤ 2 := by simp [slice]
    exact Nat.lt_of_lt_of_le bound (Nat.pow_le_pow_right (by decide) size)
  have same : unsigned 16 attributes % 8 = rawCodec raw := by
    rw [bits, unsigned_signed word]
    rfl
  have small : rawCodec raw < 8 := Nat.mod_lt _ (by decide)
  unfold decompress recordData
  rw [same]
  generalize rawCodec raw = codec at small
  obtain rfl | rfl | rfl | rfl | rfl | rfl | rfl | rfl : codec = 0 ∨ codec = 1 ∨ codec = 2 ∨ codec = 3 ∨ codec = 4 ∨
    codec = 5 ∨ codec = 6 ∨ codec = 7 := by omega
  · exact .inr (.inr ⟨by decide, _, rfl, rfl⟩)
  · exact .inl ⟨by decide, rfl⟩
  · cases snappy (raw.drop 61) with
    | none => exact .inr (.inl ⟨by decide, rfl, _, rfl, by decide⟩)
    | some data => exact .inr (.inr ⟨by decide, data, rfl, rfl⟩)
  · exact .inl ⟨by decide, rfl⟩
  · exact .inl ⟨by decide, rfl⟩
  · exact .inr (.inl ⟨by decide, rfl, _, rfl, by decide⟩)
  · exact .inr (.inl ⟨by decide, rfl, _, rfl, by decide⟩)
  · exact .inr (.inl ⟨by decide, rfl, _, rfl, by decide⟩)

section Batch

variable [Memory]

variable (snappy : Bytes → Option Bytes) (raw : Bytes)

/-- The batch, one of its records or one of their headers has broken off. -/
def Truncated : Prop := batchWith wholeRecords snappy raw = .error .eof

instance : Decidable (Truncated snappy raw) :=
  inferInstanceAs (Decidable (batchWith wholeRecords snappy raw = .error .eof))

/-- A batch or an error is returned, and an error if something has broken off. -/
def Reports : Prop := decodeRecordBatch snappy raw ≠ .error .panics ∧
  (Truncated snappy raw → ∃ e, decodeRecordBatch snappy raw = .error e)

/-- The number of records is not negative and there is memory for them, the codec is not one of those that are missing
(gzip, lz4 and zstd), no length in the records is refused by the allocation, and the headers of the last record do not
break off. -/
structure Presentable : Prop where
  count : 61 ≤ raw.length → 0 ≤ rawRecordCount raw ∧ Allocates ((rawRecordCount raw).toNat * 72) (raw.drop 61)
  codec : 61 < raw.length → rawCodec raw ∉ [1, 3, 4]
  records : 61 < raw.length → ∀ data, recordData snappy raw = some data →
    RecordRoute.records (rawRecordCount raw).toNat data.length data ≠ .strays

variable {snappy raw}

section Stages

variable {records : Nat → Read (List BatchRecord)} {batch : RecordBatch} {count : Int} {rest : Bytes}

theorem batchWith_failed {e : Failure} (failed : decodeHeader.run.run raw = (.error e, rest)) :
    batchWith records snappy raw = .error e := congrArg Prod.fst (Read.run_error failed)

variable (header : decodeHeader.run.run raw = (.ok (batch, count), rest))

include header

theorem batchWith_refused (refused : count < 0 ∨ ¬ Allocates (count.toNat * 72) rest) :
    batchWith records snappy raw = .error .panics := by
  have made := Read.make_run 72 count rest
  rw [if_pos refused] at made
  unfold batchWith
  dsimp only
  rw [Read.run_ok header]
  dsimp only
  rw [Read.run_error made]

variable (made : ¬ (count < 0 ∨ ¬ Allocates (count.toNat * 72) rest))

include made

theorem batchWith_allocated : batchWith records snappy raw = ((do
    let rawDataRecords ← Read.rawBytes rest.length
    let dataRecords ← ExceptT.mk (pure (decompress snappy batch.attributes rawDataRecords))
    set dataRecords
    return { batch with records := ← records count.toNat } : Read RecordBatch).run.run rest).1 := by
  have allocated := Read.make_run 72 count rest
  rw [if_neg made] at allocated
  unfold batchWith
  dsimp only
  rw [Read.run_ok header]
  dsimp only
  rw [Read.run_ok allocated, Read.run_ok (show Read.remaining.run.run rest = (.ok rest.length, rest) from rfl)]

theorem batchWith_empty (empty : rest = []) : batchWith records snappy raw = .error .eof := by
  rw [batchWith_allocated header made, empty]
  rfl

theorem batchWith_unpacked (full : rest ≠ []) : batchWith records snappy raw =
    (decompress snappy batch.attributes rest).bind fun data =>
      ((records count.toNat).run.run data).1.map fun rs => { batch with records := rs } := by
  have copied : (Read.rawBytes rest.length).run.run rest = (.ok rest, rest) := by
    show (if rest.length = 0 ∨ rest.length < rest.length then _ else _ : Read Bytes).run.run rest = _
    rw [if_neg (by simp [full])]
    exact congrArg (fun bs => (Except.ok bs, rest)) (List.take_of_length_le (Nat.le_refl _))
  rw [batchWith_allocated header made, Read.run_ok copied]
  cases decompress snappy batch.attributes rest with
  | error e => rfl
  | ok data =>
    have unpacked : (ExceptT.mk (pure (.ok data)) : Read Bytes).run.run rest = (.ok data, rest) := rfl
    have replaced : (set data : Read PUnit).run.run rest = (.ok ⟨⟩, data) := rfl
    rw [Read.run_ok unpacked, Read.run_ok replaced]
    show _ = Except.map _ ((records count.toNat).run.run data).1
    rcases ran : (records count.toNat).run.run data with ⟨e | rs, left⟩
    · rw [Read.run_error ran]
      rfl
    · rw [Read.run_ok ran]
      rfl

end Stages

/-- The decoder reports what is wrong with a batch exactly for the batches without those lengths, codecs and counts. -/
theorem decodeRecordBatch_reports_iff (snappy : Bytes → Option Bytes) (raw : Bytes) :
    Reports snappy raw ↔ Presentable snappy raw := by
  unfold Reports Truncated
  rw [decodeRecordBatch_eq]
  have goes := decodeHeader_tracks.goes 0 raw
  unfold RecordRoute.fixed at goes
  by_cases room : 61 ≤ raw.length
  · rw [if_pos room] at goes
    obtain ⟨⟨batch, count⟩, header⟩ := goes
    obtain ⟨_, counted, bits⟩ := decodeHeader_gives header
    have counted : rawRecordCount raw = count := counted.symm
    by_cases refused : count < 0 ∨ ¬ Allocates (count.toNat * 72) (raw.drop 61)
    · -- The slice of the records is allocated before anything else is read.
      refine iff_of_false (fun reports => reports.1 (batchWith_refused header refused)) fun fine => ?_
      obtain ⟨sound, allocates⟩ := fine.count room
      rw [counted] at sound allocates
      exact refused.elim (Int.not_lt.mpr sound) fun fails => fails allocates
    have sound : 61 ≤ raw.length → 0 ≤ rawRecordCount raw ∧
        Allocates ((rawRecordCount raw).toNat * 72) (raw.drop 61) := by
      intro _
      rw [counted]
      push Not at refused
      exact refused
    by_cases full : 61 < raw.length
    · have rest : raw.drop 61 ≠ [] := by
        rw [Ne, length_drop_header]
        omega
      have batches : ∀ records : Nat → Read (List BatchRecord), batchWith records snappy raw =
          (decompress snappy batch.attributes (raw.drop 61)).bind fun data =>
            ((records count.toNat).run.run data).1.map fun rs => { batch with records := rs } :=
        fun records => batchWith_unpacked header refused rest
      rw [batches, batches]
      have tracks := (decodeRecords_tracks count.toNat).reports_iff fun rs => { batch with records := rs }
      rcases decompress_cases snappy bits with
        ⟨missing, unpacked⟩ | ⟨known, noData, e, unpacked, harmless⟩ | ⟨known, data, found, unpacked⟩
      · rw [unpacked]
        exact iff_of_false (fun reports => reports.1 rfl) fun fine => fine.codec full missing
      · rw [unpacked]
        refine iff_of_true ⟨fun panicked => harmless (Except.error.inj panicked), fun _ => ⟨e, rfl⟩⟩
          ⟨sound, fun _ => known, fun _ data found => ?_⟩
        rw [noData] at found
        cases found
      · rw [unpacked]
        refine (tracks data.length data).trans ⟨fun stays => ⟨sound, fun _ => known, ?_⟩, fun fine => ?_⟩
        · intro _ other same
          obtain rfl : data = other := Option.some.inj (found.symm.trans same)
          rw [counted]
          exact stays
        · rw [← counted]
          exact fine.records full data found
    · have rest : raw.drop 61 = [] := length_drop_header.mpr (by omega)
      rw [batchWith_empty header refused rest]
      exact iff_of_true ⟨by decide, fun _ => ⟨_, rfl⟩⟩
        ⟨sound, fun more => absurd more full, fun more => absurd more full⟩
  · rw [if_neg room] at goes
    obtain ⟨e, rest, failed, harmless⟩ := goes
    rw [batchWith_failed failed]
    exact iff_of_true ⟨fun panicked => harmless (Except.error.inj panicked), fun _ => ⟨e, rfl⟩⟩
      ⟨fun long => absurd long room, fun long => absurd (Nat.le_of_lt long) room,
        fun long => absurd (Nat.le_of_lt long) room⟩

end Batch

def plainHeader (attributes recordCount : Nat) : Bytes :=
  List.replicate 21 0 ++ beBytes 2 attributes ++ List.replicate 34 0 ++ beBytes 4 recordCount

def plainRecord (headerCount : UInt8) (headers : Bytes) : Bytes := [0, 0, 0, 0, 1, 1, headerCount] ++ headers

def negativeCount : Bytes := plainHeader 0 (2 ^ 32 - 1)

def gzipped : Bytes := plainHeader 1 0 ++ [0]

def negativeKey : Bytes := plainHeader 0 1 ++ plainRecord 2 [1]

def hugeValue : Bytes := plainHeader 0 1 ++ [0, 0, 0, 0, 1] ++ uvarintBytes 0x2000000000002

def cutHeader : Bytes := plainHeader 0 1 ++ plainRecord 2 [4, 97]

def vastValue : Bytes := plainHeader 0 1 ++ [0, 0, 0, 0, 1] ++ uvarintBytes 0x2000000000000

def manyRecords : Bytes := plainHeader 0 (2 ^ 31 - 1) ++ [0]

/-- The last two are only as harmless as the machine is large. -/
theorem malformed_batches : decodeRecordBatch some negativeCount = .error .panics ∧
    decodeRecordBatch some gzipped = .error .panics ∧ decodeRecordBatch some negativeKey = .error .panics ∧
    decodeRecordBatch some hugeValue = .error .panics ∧
    Truncated some cutHeader ∧ (decodeRecordBatch some cutHeader).isOk ∧
    (∀ raw ∈ [negativeCount, gzipped, negativeKey, hugeValue, cutHeader], ¬ Reports some raw) ∧
    ∀ raw ∈ [vastValue, manyRecords], ¬ @Reports (.limited (2 ^ 37)) some raw := by
  have count : decodeRecordBatch some negativeCount = .error .panics := by decide +kernel
  have codec : decodeRecordBatch some gzipped = .error .panics := by decide +kernel
  have key : decodeRecordBatch some negativeKey = .error .panics := by decide +kernel
  have value : decodeRecordBatch some hugeValue = .error .panics := by decide +kernel
  have short : Truncated some cutHeader := by decide +kernel
  have taken : (decodeRecordBatch some cutHeader).isOk := by decide +kernel
  have vast : @decodeRecordBatch (.limited (2 ^ 37)) some vastValue = .error .panics := by decide +kernel
  have many : @decodeRecordBatch (.limited (2 ^ 37)) some manyRecords = .error .panics := by decide +kernel
  refine ⟨count, codec, key, value, short, taken, ?_, ?_⟩
  · simp only [List.mem_cons, List.not_mem_nil, or_false]
    rintro raw (rfl | rfl | rfl | rfl | rfl) ⟨harmless, reported⟩
    · exact harmless count
    · exact harmless codec
    · exact harmless key
    · exact harmless value
    · obtain ⟨e, failed⟩ := reported short
      rw [failed] at taken
      cases taken
  · simp only [List.mem_cons, List.not_mem_nil, or_false]
    rintro raw (rfl | rfl) ⟨harmless, _⟩
    · exact harmless vast
    · exact harmless many

end KafGo.Protocol
