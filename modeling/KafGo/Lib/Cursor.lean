import KafGo.Lib.Bytes
import Mathlib.Data.List.Basic

/-!
# Cursors over a buffer

A reader with a buffer and a position that is a machine integer. Sums wrap around, so a length that is too large can
pass the check for the end of the buffer. What the bounds checks of the run-time system stop is a panic; what they do
not stop may leave the position anywhere. The cursor keeps the positions it has had, to tell.

A scanner is judged in two ways. `Reads` says that it reads given bytes as a given value, whatever stands behind them.
`Follows` compares it with a route, a description of what it should find in the bytes that remain.
-/

namespace KafGo.Lib

/-- Bytes that are in memory, where no more than `2 ^ 48` have an address. -/
structure Octets where
  bytes : Bytes
  fits : bytes.length ≤ 2 ^ 48
  deriving DecidableEq

theorem Octets.nil_fits : ([] : Bytes).length ≤ 2 ^ 48 := Nat.zero_le _

def Octets.nil : Octets := ⟨[], nil_fits⟩

/-- `trail` holds the earlier positions, the last one first. It is there to state properties and changes nothing. -/
structure Cursor where
  buff : Octets
  pos : Int
  trail : List Int

/-- An error that is returned, or a panic. -/
inductive Stop (ε : Type) where
  | error (e : ε)
  | panics
  deriving DecidableEq

instance {ε α : Type} : (out : Except (Stop ε) α) → Decidable (out = .error .panics)
  | .ok _ => isFalse nofun
  | .error (.error _) => isFalse nofun
  | .error .panics => isTrue rfl

def Scanner (ε α : Type) := Cursor → Except (Stop ε) α × Cursor

namespace Cursor

def start (buff : Octets) : Cursor := ⟨buff, 0, []⟩

def size (c : Cursor) : Nat := c.buff.bytes.length

def remaining (c : Cursor) : Bytes := c.buff.bytes.drop c.pos.toNat

def positions (c : Cursor) : List Int := c.pos :: c.trail

def moved (c : Cursor) (n : Int) : Cursor := { c with pos := wrapSigned 64 (c.pos + n), trail := c.positions }

/-- The position has stayed in the buffer and never gone back. -/
structure Forward (c : Cursor) : Prop where
  ordered : c.positions.Pairwise (· ≥ ·)
  inside : ∀ p ∈ c.positions, 0 ≤ p ∧ p ≤ c.size

instance (c : Cursor) : Decidable c.Forward :=
  decidable_of_iff (c.positions.Pairwise (· ≥ ·) ∧ ∀ p ∈ c.positions, 0 ≤ p ∧ p ≤ c.size)
    ⟨fun ⟨ordered, inside⟩ => ⟨ordered, inside⟩, fun forward => ⟨forward.ordered, forward.inside⟩⟩

end Cursor

namespace Scanner

variable {ε α β σ : Type}

instance : Monad (Scanner ε) where
  pure a := fun c => (.ok a, c)
  bind d k := fun c => match d c with
    | (.ok a, c') => k a c'
    | (.error s, c') => (.error s, c')

def fail (e : ε) : Scanner ε α := fun c => (.error (.error e), c)

def panic : Scanner ε α := fun c => (.error .panics, c)

/-- `if r.pos+n > len(r.buff) { return eof }`. -/
def require (eof : ε) (n : Int) : Scanner ε Unit := fun c =>
  if wrapSigned 64 (c.pos + n) > c.size then fail eof c else (.ok (), c)

/-- `r.buff[r.pos : r.pos+n]`. -/
def view (n : Int) : Scanner ε Octets := fun c =>
  let high := wrapSigned 64 (c.pos + n)
  if 0 ≤ c.pos ∧ c.pos ≤ high ∧ high ≤ c.size then
    (.ok ⟨slice c.buff.bytes c.pos.toNat (high - c.pos).toNat, Nat.le_trans (by simp [slice]) c.buff.fits⟩, c)
  else panic c

def advance (n : Int) : Scanner ε Unit := fun c => (.ok (), c.moved n)

def done : Scanner ε Bool := fun c => (.ok (decide (c.pos ≥ c.size)), c)

/-- `fmt.Errorf("...: %w", err)` for the errors of a read. -/
def mapError (f : ε → ε) (d : Scanner ε α) : Scanner ε α := fun c => match d c with
  | (.ok a, c') => (.ok a, c')
  | (.error (.error e), c') => (.error (.error (f e)), c')
  | (.error .panics, c') => (.error .panics, c')

def each (read : Nat → Scanner ε α) : (n : Nat) → (i : Nat) → Scanner ε { xs : List α // xs.length = n }
  | 0, _ => return ⟨[], rfl⟩
  | n + 1, i => do
    let x ← read i
    let xs ← each read n (i + 1)
    return ⟨x :: xs.1, congrArg (· + 1) xs.2⟩

def repeated (turn : σ → Scanner ε σ) : Nat → σ → Scanner ε σ
  | 0, st => return st
  | n + 1, st => do repeated turn n (← turn st)

def peek (eof : ε) (n : Int) : Scanner ε Octets := do
  require eof n
  view n

def take (eof : ε) (n : Int) : Scanner ε Octets := do
  let v ← peek eof n
  advance n
  return v

def skip (eof : ε) (n : Int) : Scanner ε Unit := do
  require eof n
  advance n

theorem bind_ok {d : Scanner ε α} {k : α → Scanner ε β} {c c' : Cursor} {a : α} (first : d c = (.ok a, c')) :
    (d >>= k) c = k a c' := by
  simp only [bind, first]

theorem bind_bind {γ : Type} (d : Scanner ε α) (k : α → Scanner ε β) (l : β → Scanner ε γ) :
    (d >>= k) >>= l = d >>= fun a => k a >>= l := by
  funext c
  rcases ran : d c with ⟨s | a, c'⟩ <;> simp only [bind, ran]

theorem bind_error {d : Scanner ε α} {k : α → Scanner ε β} {c c' : Cursor} {s : Stop ε} (first : d c = (.error s, c')) :
    (d >>= k) c = (.error s, c') := by
  simp only [bind, first]

end Scanner

/-! ### Positions inside the buffer -/

namespace Cursor

variable {c : Cursor}

theorem start_forward (buff : Octets) : (start buff).Forward where
  ordered := List.pairwise_singleton _ _
  inside p member := by
    rw [List.mem_singleton.mp member]
    exact ⟨Int.le_refl _, Int.natCast_nonneg _⟩

theorem Forward.bounds (forward : c.Forward) : 0 ≤ c.pos ∧ c.pos ≤ c.size := forward.inside c.pos List.mem_cons_self

theorem Forward.left (forward : c.Forward) : (c.remaining.length : Int) = c.size - c.pos := by
  have bounds := forward.bounds
  simp only [remaining, size, List.length_drop] at bounds ⊢
  omega

theorem Forward.moved_pos (forward : c.Forward) {n : Nat} (room : n ≤ c.remaining.length) :
    (c.moved n).pos = c.pos + n := by
  have bounds := forward.bounds
  have left := forward.left
  have fits := c.buff.fits
  unfold size at left bounds
  exact wrapSigned_fits (by decide) (by omega) (by omega)

theorem Forward.moved (forward : c.Forward) {n : Nat} (room : n ≤ c.remaining.length) :
    (c.moved n).Forward ∧ (c.moved n).buff = c.buff ∧ (c.moved n).remaining = c.remaining.drop n := by
  have bounds := forward.bounds
  have left := forward.left
  have landed := forward.moved_pos room
  refine ⟨⟨?_, ?_⟩, rfl, ?_⟩
  · refine List.pairwise_cons.mpr ⟨fun p member => ?_, forward.ordered⟩
    have behind : p ≤ c.pos := by
      rcases List.mem_cons.mp member with rfl | earlier
      · exact Int.le_refl _
      · exact (List.pairwise_cons.mp forward.ordered).1 p earlier
    rw [landed]
    omega
  · intro p member
    rcases List.mem_cons.mp member with rfl | earlier
    · rw [landed]
      exact ⟨by omega, by show _ ≤ (c.size : Int); omega⟩
    · exact forward.inside p earlier
  · unfold remaining
    rw [landed, List.drop_drop]
    congr 1
    omega

end Cursor

namespace Scanner

variable {ε α β σ : Type}

theorem require_apply (eof : ε) (n : Int) (c : Cursor) :
    require eof n c = if wrapSigned 64 (c.pos + n) > c.size then (.error (.error eof), c) else (.ok (), c) := rfl

variable {c : Cursor} {n : Int} {d : Scanner ε α} {k : α → Scanner ε β} {bytes bytes' : Bytes}
  {p : Bytes → Option (α × Bytes)} {a : α} {b : β} {f : α → β} {xs : List α}

theorem view_ok (low : 0 ≤ c.pos) (ordered : c.pos ≤ wrapSigned 64 (c.pos + n))
    (high : wrapSigned 64 (c.pos + n) ≤ c.size) :
    ∃ v : Octets, v.bytes = slice c.buff.bytes c.pos.toNat (wrapSigned 64 (c.pos + n) - c.pos).toNat ∧
      (view n : Scanner ε Octets) c = (.ok v, c) :=
  ⟨_, rfl, if_pos ⟨low, ordered, high⟩⟩

theorem view_panics (back : wrapSigned 64 (c.pos + n) < c.pos) :
    (view n : Scanner ε Octets) c = (.error .panics, c) :=
  if_neg fun ⟨_, ordered, _⟩ => by omega

theorem wrapSigned_over {x : Int} (low : 2 ^ 63 ≤ x) (high : x < 2 ^ 64) : wrapSigned 64 x = x - 2 ^ 64 :=
  wrapSigned_moved (by decide) (by omega) (by omega) ⟨1, by omega⟩

theorem wrapSigned_back {p : Int} (start : 0 ≤ p) (inside : p < 2 ^ 63) (low : -2 ^ 63 ≤ n) (high : n < 2 ^ 63)
    (insane : ¬ (0 ≤ n ∧ p + n < 2 ^ 63)) : wrapSigned 64 (p + n) < p := by
  by_cases negative : n < 0
  · rw [wrapSigned_fits (by decide) (by omega) (by omega)]
    omega
  · rw [wrapSigned_over (by omega) (by omega)]
    omega

/-- A look from a position in the buffer. A negative length and one that makes the sum wrap around both get past the
check and end in a panic. -/
theorem peek_apply (forward : c.Forward) (eof : ε) (low : -2 ^ 63 ≤ n) (high : n < 2 ^ 63) :
    ∃ v : Octets, v.bytes = c.remaining.take n.toNat ∧
      peek eof n c =
        if 0 ≤ n ∧ c.pos + n < 2 ^ 63 then
          if n ≤ c.remaining.length then (.ok v, c) else (.error (.error eof), c)
        else (.error .panics, c) := by
  have bounds := forward.bounds
  have left := forward.left
  have fits : (c.size : Int) < 2 ^ 63 := by have := c.buff.fits; unfold Cursor.size; omega
  have prefix_fits : (c.remaining.take n.toNat).length ≤ 2 ^ 48 :=
    Nat.le_trans (by simp [Cursor.remaining]) c.buff.fits
  unfold peek
  by_cases sane : 0 ≤ n ∧ c.pos + n < 2 ^ 63
  · have sum : wrapSigned 64 (c.pos + n) = c.pos + n := wrapSigned_fits (by decide) (by omega) (by omega)
    by_cases room : n ≤ c.remaining.length
    · have passed : require eof n c = (.ok (), c) := by rw [require_apply, if_neg (by omega)]
      obtain ⟨v, bytes, viewed⟩ := view_ok (ε := ε) (c := c) (n := n) bounds.1 (by omega) (by omega)
      have width : c.pos + n - c.pos = n := by omega
      refine ⟨v, ?_, ?_⟩
      · rw [bytes, sum, width]
        rfl
      · rw [if_pos sane, if_pos room, bind_ok passed, viewed]
    · refine ⟨⟨_, prefix_fits⟩, rfl, ?_⟩
      rw [if_pos sane, if_neg room, bind_error]
      rw [require_apply, if_pos (by omega)]
  · have back := wrapSigned_back bounds.1 (by omega) low high sane
    have passed : require eof n c = (.ok (), c) := by rw [require_apply, if_neg (by omega)]
    refine ⟨⟨_, prefix_fits⟩, rfl, ?_⟩
    rw [if_neg sane, bind_ok passed, view_panics back]

theorem take_apply (forward : c.Forward) (eof : ε) (low : -2 ^ 63 ≤ n) (high : n < 2 ^ 63) :
    ∃ v : Octets, v.bytes = c.remaining.take n.toNat ∧
      take eof n c =
        if 0 ≤ n ∧ c.pos + n < 2 ^ 63 then
          if n ≤ c.remaining.length then (.ok v, c.moved n) else (.error (.error eof), c)
        else (.error .panics, c) := by
  obtain ⟨v, bytes, peeked⟩ := peek_apply forward eof low high
  refine ⟨v, bytes, ?_⟩
  unfold take
  split
  · rename_i sane
    rw [if_pos sane] at peeked
    split
    · rename_i room
      rw [if_pos room] at peeked
      rw [bind_ok peeked]
      rfl
    · rename_i short
      rw [if_neg short] at peeked
      exact bind_error peeked
  · rename_i insane
    rw [if_neg insane] at peeked
    exact bind_error peeked

/-- The buffer stays, and the positions so far are not forgotten. -/
def Keeps (d : Scanner ε α) : Prop := ∀ c, (d c).2.buff = c.buff ∧ c.positions <:+ (d c).2.positions

theorem keeps_pure (a : α) : Keeps (pure a : Scanner ε α) := fun _ => ⟨rfl, List.suffix_refl _⟩

theorem keeps_fail (e : ε) : Keeps (fail e : Scanner ε α) := fun _ => ⟨rfl, List.suffix_refl _⟩

theorem keeps_panic : Keeps (panic : Scanner ε α) := fun _ => ⟨rfl, List.suffix_refl _⟩

theorem keeps_advance (n : Int) : Keeps (advance n : Scanner ε Unit) := fun _ => ⟨rfl, List.suffix_cons _ _⟩

theorem keeps_require (eof : ε) (n : Int) : Keeps (require eof n) := by
  intro c
  rw [require_apply]
  split <;> exact ⟨rfl, List.suffix_refl _⟩

theorem keeps_view (n : Int) : Keeps (view n : Scanner ε Octets) := by
  intro c
  unfold view
  dsimp only
  split <;> exact ⟨rfl, List.suffix_refl _⟩

theorem keeps_bind (first : Keeps d) (next : ∀ a, Keeps (k a)) :
    Keeps (d >>= k) := by
  intro c
  have kept := first c
  rcases ran : d c with ⟨s | a, c'⟩
  · rw [bind_error ran]
    rw [ran] at kept
    exact kept
  · rw [bind_ok ran]
    rw [ran] at kept
    exact ⟨(next a c').1.trans kept.1, kept.2.trans (next a c').2⟩

theorem keeps_peek (eof : ε) (n : Int) : Keeps (peek eof n) :=
  keeps_bind (keeps_require eof n) fun _ => keeps_view n

theorem keeps_take (eof : ε) (n : Int) : Keeps (take eof n) :=
  keeps_bind (keeps_peek eof n) fun v => keeps_bind (keeps_advance n) fun _ => keeps_pure v

theorem keeps_skip (eof : ε) (n : Int) : Keeps (skip eof n) :=
  keeps_bind (keeps_require eof n) fun _ => keeps_advance n

theorem keeps_mapError (f : ε → ε) (keeps : Keeps d) : Keeps (mapError f d) := by
  intro c
  have kept := keeps c
  unfold mapError
  rcases ran : d c with ⟨(_ | _) | _, c'⟩ <;> rw [ran] at kept <;> exact kept

/-- A position outside the buffer or behind an earlier one is never made good. -/
theorem Keeps.stray (keeps : Keeps d) (stray : ¬ c.Forward) : ¬ (d c).2.Forward := by
  intro forward
  obtain ⟨buff, trail⟩ := keeps c
  have same : (d c).2.size = c.size := congrArg (fun b => b.bytes.length) buff
  refine stray ⟨forward.ordered.sublist trail.sublist, fun p member => ?_⟩
  rw [← same]
  exact forward.inside p (trail.subset member)

/-! ### Scanners that parse -/

structure Onward (c c' : Cursor) (rest : Bytes) : Prop where
  forward : c'.Forward
  buff : c'.buff = c.buff
  remaining : c'.remaining = rest

theorem Onward.trans {c₁ c₂ : Cursor} {rest rest' : Bytes} (first : Onward c c₁ rest) (second : Onward c₁ c₂ rest') :
    Onward c c₂ rest' := ⟨second.forward, second.buff.trans first.buff, second.remaining⟩

theorem onward_moved (forward : c.Forward) {n : Nat} (room : n ≤ c.remaining.length) :
    Onward c (c.moved n) (c.remaining.drop n) :=
  ⟨(forward.moved room).1, (forward.moved room).2.1, (forward.moved room).2.2⟩

theorem Onward.pos {c' : Cursor} {rest : Bytes} (forward : c.Forward) (remains : c.remaining = bytes ++ rest)
    (onward : Onward c c' rest) : c'.pos = c.pos + bytes.length := by
  have before := forward.left
  have after := onward.forward.left
  have same : c'.size = c.size := congrArg (fun b => b.bytes.length) onward.buff
  rw [remains, List.length_append] at before
  rw [onward.remaining, same] at after
  omega

/-- The scanner does on every buffer what the function `p` does on the bytes that remain. -/
structure Parses (d : Scanner ε α) (p : Bytes → Option (α × Bytes)) : Prop where
  keeps : Keeps d
  accepts : ∀ c a rest, c.Forward → p c.remaining = some (a, rest) → ∃ c', d c = (.ok a, c') ∧ Onward c c' rest
  rejects : ∀ c, c.Forward → p c.remaining = none → ∃ e c', d c = (.error (.error e), c') ∧ c'.Forward

theorem parses_pure (a : α) : Parses (pure a : Scanner ε α) fun left => some (a, left) where
  keeps := keeps_pure a
  accepts c b rest forward found := by
    cases found
    exact ⟨c, rfl, forward, rfl, rfl⟩
  rejects c forward found := by cases found

theorem parses_fail (e : ε) : Parses (fail e : Scanner ε α) fun _ => none where
  keeps := keeps_fail e
  accepts c a rest forward found := by cases found
  rejects c forward _ := ⟨e, c, rfl, forward⟩

theorem Parses.congr {q : Bytes → Option (α × Bytes)} (parses : Parses d p) (same : ∀ left, p left = q left) :
    Parses d q := by
  rwa [funext same] at parses

theorem Parses.bind {q : α → Bytes → Option (β × Bytes)} (first : Parses d p) (next : ∀ a, Parses (k a) (q a)) :
    Parses (d >>= k) fun left => (p left).bind fun result => q result.1 result.2 where
  keeps := keeps_bind first.keeps fun a => (next a).keeps
  accepts c b rest forward found := by
    obtain ⟨⟨a, mid⟩, here, there⟩ := Option.bind_eq_some_iff.mp found
    obtain ⟨c₁, ran, onward⟩ := first.accepts c a mid forward here
    obtain ⟨c₂, ran', onward'⟩ := (next a).accepts c₁ b rest onward.forward (by rw [onward.remaining]; exact there)
    exact ⟨c₂, (bind_ok ran).trans ran', onward.trans onward'⟩
  rejects c forward found := by
    cases here : p c.remaining with
    | none =>
      obtain ⟨e, c₁, ran, ahead⟩ := first.rejects c forward here
      exact ⟨e, c₁, bind_error ran, ahead⟩
    | some result =>
      obtain ⟨a, mid⟩ := result
      obtain ⟨c₁, ran, onward⟩ := first.accepts c a mid forward here
      rw [here, Option.bind_some] at found
      obtain ⟨e, c₂, ran', ahead⟩ := (next a).rejects c₁ onward.forward (by rw [onward.remaining]; exact found)
      exact ⟨e, c₂, (bind_ok ran).trans ran', ahead⟩

def takeBytes (n : Nat) (left : Bytes) : Option (Bytes × Bytes) :=
  if n ≤ left.length then some (left.take n, left.drop n) else none

theorem takeBytes_append (bytes rest : Bytes) : takeBytes bytes.length (bytes ++ rest) = some (bytes, rest) := by
  simp [takeBytes]

theorem parses_take (eof : ε) {n : Nat} (small : n ≤ 2 ^ 48) :
    Parses (do return (← take eof n).bytes) (takeBytes n) where
  keeps := keeps_bind (keeps_take eof n) fun _ => keeps_pure _
  accepts c a rest forward found := by
    obtain ⟨v, bytes, ran⟩ := take_apply forward eof (n := (n : Int)) (by omega) (by omega)
    have fits := c.buff.fits
    have left := forward.left
    have bounds := forward.bounds
    unfold Cursor.size at left bounds
    unfold takeBytes at found
    split at found
    · rename_i room
      cases found
      rw [if_pos (by omega), if_pos (by omega)] at ran
      refine ⟨_, (bind_ok ran).trans ?_, onward_moved forward room⟩
      rw [Int.toNat_natCast] at bytes
      rw [bytes]
      rfl
    · cases found
  rejects c forward found := by
    obtain ⟨v, bytes, ran⟩ := take_apply forward eof (n := (n : Int)) (by omega) (by omega)
    have fits := c.buff.fits
    have bounds := forward.bounds
    unfold Cursor.size at bounds
    unfold takeBytes at found
    split at found
    · cases found
    · rw [if_pos (by omega), if_neg (by omega)] at ran
      exact ⟨eof, c, bind_error ran, forward⟩

/-- The scanner reads `bytes` as `a`, whatever stands behind them. -/
def Reads (d : Scanner ε α) (bytes : Bytes) (a : α) : Prop :=
  ∀ c rest, c.Forward → c.remaining = bytes ++ rest → ∃ c', d c = (.ok a, c') ∧ Onward c c' rest

theorem Parses.reads (parses : Parses d p) (accepted : ∀ rest, p (bytes ++ rest) = some (a, rest)) : Reads d bytes a :=
  fun c rest forward remains => parses.accepts c a rest forward (by rw [remains, accepted])

theorem reads_pure (a : α) : Reads (pure a : Scanner ε α) [] a := fun c _ forward remains =>
  ⟨c, rfl, forward, rfl, remains⟩

theorem Reads.bind (first : Reads d bytes a) (next : Reads (k a) bytes' b) : Reads (d >>= k) (bytes ++ bytes') b := by
  intro c rest forward remains
  rw [List.append_assoc] at remains
  obtain ⟨c₁, ran, onward⟩ := first c (bytes' ++ rest) forward remains
  obtain ⟨c₂, ran', onward'⟩ := next c₁ rest onward.forward onward.remaining
  exact ⟨c₂, (bind_ok ran).trans ran', onward.trans onward'⟩

theorem Reads.finish (reads : Reads d bytes a) (next : Reads (k a) [] b) : Reads (d >>= k) bytes b := by
  have both := reads.bind next
  rwa [List.append_nil] at both

theorem Reads.last (reads : Reads d bytes a) :
    Reads (do return f (← d)) bytes (f a) := reads.finish (reads_pure (f a))

theorem Reads.mapError (reads : Reads d bytes a) (f : ε → ε) :
    Reads (mapError f d) bytes a := by
  intro c rest forward remains
  obtain ⟨c', ran, onward⟩ := reads c rest forward remains
  refine ⟨c', ?_, onward⟩
  simp only [Scanner.mapError, ran]

theorem reads_take (eof : ε) (v : Octets) : Reads (take eof v.bytes.length) v.bytes v := by
  intro c rest forward remains
  have fits := v.fits
  have room : v.bytes.length ≤ c.remaining.length := by rw [remains, List.length_append]; omega
  have bounds := forward.bounds
  have left := forward.left
  have size := c.buff.fits
  obtain ⟨w, bytes, ran⟩ := take_apply forward eof (n := v.bytes.length) (by omega) (by omega)
  rw [Int.toNat_natCast, remains, List.take_left] at bytes
  have same : w = v := by
    cases w
    cases v
    simpa using bytes
  rw [if_pos (by unfold Cursor.size at left; omega), if_pos (by omega), same] at ran
  refine ⟨_, ran, ?_⟩
  have onward := onward_moved forward room
  rwa [remains, List.drop_left] at onward

theorem reads_skip (eof : ε) (bytes : Bytes) : Reads (skip eof bytes.length) bytes () := by
  intro c rest forward remains
  have room : bytes.length ≤ c.remaining.length := by rw [remains, List.length_append]; omega
  have landed := forward.moved_pos room
  have left := forward.left
  change wrapSigned 64 (c.pos + bytes.length) = c.pos + bytes.length at landed
  have passed : require eof (bytes.length : Int) c = (.ok (), c) := by
    rw [require_apply, landed, if_neg (by omega)]
  have onward := onward_moved forward room
  rw [remains, List.drop_left] at onward
  exact ⟨_, bind_ok passed, onward⟩

theorem reads_of_fits (reads : bytes.length ≤ 2 ^ 48 → Reads d bytes a) :
    Reads d bytes a := by
  intro c rest forward remains
  have room : bytes.length ≤ c.remaining.length := by rw [remains, List.length_append]; omega
  have left := forward.left
  have bounds := forward.bounds
  have fits : c.size ≤ 2 ^ 48 := c.buff.fits
  exact reads (by omega) c rest forward remains

theorem reads_each {read : Nat → Scanner ε β} {write : α → Bytes} {g : α → β}
    (reads : ∀ i a, Reads (read i) (write a) (g a)) {n : Nat} (count : (xs.map g).length = n) (i : Nat) :
    Reads (each read n i) (xs.flatMap write) ⟨xs.map g, count⟩ := by
  subst count
  induction xs generalizing i with
  | nil => exact reads_pure _
  | cons x xs ih =>
    rw [List.flatMap_cons]
    exact (reads i x).bind (ih (i + 1)).last

theorem reads_repeated {turn : σ → Scanner ε σ} {steps : List (Bytes × (σ → σ))}
    (reads : ∀ step ∈ steps, ∀ st, Reads (turn st) step.1 (step.2 st)) (st : σ) :
    Reads (repeated turn steps.length st) (steps.flatMap Prod.fst) (steps.foldl (fun st step => step.2 st) st) := by
  induction steps generalizing st with
  | nil => exact reads_pure st
  | cons step steps ih =>
    rw [List.flatMap_cons]
    exact (reads step List.mem_cons_self st).bind
      (ih (fun later member => reads later (List.mem_cons_of_mem _ member)) _)

/-! ### Reads that need something behind them -/

/-- The scanner reads `bytes` as `a` if there are more bytes behind them. -/
def ReadsAhead (d : Scanner ε α) (bytes : Bytes) (a : α) : Prop :=
  ∀ c rest, rest ≠ [] → c.Forward → c.remaining = bytes ++ rest → ∃ c', d c = (.ok a, c') ∧ Onward c c' rest

/-- The scanner does not get to the end of these bytes. -/
def FallsShort (d : Scanner ε α) (bytes : Bytes) : Prop :=
  ∀ c, c.Forward → c.remaining = bytes → ∀ a c', d c = (.ok a, c') → c'.buff = c.buff ∧ c'.remaining ≠ []

theorem Reads.ahead (reads : Reads d bytes a) : ReadsAhead d bytes a :=
  fun c rest _ => reads c rest

theorem ReadsAhead.bind (first : ReadsAhead d bytes a) (next : ReadsAhead (k a) bytes' b) :
    ReadsAhead (d >>= k) (bytes ++ bytes') b := by
  intro c rest more forward remains
  rw [List.append_assoc] at remains
  obtain ⟨c₁, ran, onward⟩ := first c (bytes' ++ rest) (List.append_ne_nil_of_right_ne_nil _ more) forward remains
  obtain ⟨c₂, ran', onward'⟩ := next c₁ rest more onward.forward onward.remaining
  exact ⟨c₂, (bind_ok ran).trans ran', onward.trans onward'⟩

theorem ReadsAhead.before (first : ReadsAhead d bytes a) (more : bytes' ≠ []) (next : Reads (k a) bytes' b) :
    Reads (d >>= k) (bytes ++ bytes') b := by
  intro c rest forward remains
  rw [List.append_assoc] at remains
  obtain ⟨c₁, ran, onward⟩ := first c (bytes' ++ rest) (List.append_ne_nil_of_left_ne_nil more _) forward remains
  obtain ⟨c₂, ran', onward'⟩ := next c₁ rest onward.forward onward.remaining
  exact ⟨c₂, (bind_ok ran).trans ran', onward.trans onward'⟩

theorem ReadsAhead.last (reads : ReadsAhead d bytes a) :
    ReadsAhead (do return f (← d)) bytes (f a) := by
  have both : ReadsAhead (d >>= fun a => pure (f a)) (bytes ++ []) (f a) := reads.bind (reads_pure (f a)).ahead
  rwa [List.append_nil] at both

theorem ReadsAhead.mapError (reads : ReadsAhead d bytes a) (f : ε → ε) :
    ReadsAhead (mapError f d) bytes a := by
  intro c rest more forward remains
  obtain ⟨c', ran, onward⟩ := reads c rest more forward remains
  refine ⟨c', ?_, onward⟩
  simp only [Scanner.mapError, ran]

theorem Reads.fallsShort (first : Reads d bytes a) (next : FallsShort (k a) bytes') :
    FallsShort (d >>= k) (bytes ++ bytes') := by
  intro c forward remains b c' ran
  obtain ⟨c₁, first, onward⟩ := first c bytes' forward remains
  rw [bind_ok first] at ran
  obtain ⟨same, left⟩ := next c₁ onward.forward onward.remaining b c' ran
  exact ⟨same.trans onward.buff, left⟩

theorem ReadsAhead.fallsShort (first : ReadsAhead d bytes a) (more : bytes' ≠ []) (next : FallsShort (k a) bytes') :
    FallsShort (d >>= k) (bytes ++ bytes') := by
  intro c forward remains b c' ran
  obtain ⟨c₁, first, onward⟩ := first c bytes' more forward remains
  rw [bind_ok first] at ran
  obtain ⟨same, left⟩ := next c₁ onward.forward onward.remaining b c' ran
  exact ⟨same.trans onward.buff, left⟩

theorem FallsShort.last (short : FallsShort d bytes) :
    FallsShort (do return f (← d)) bytes := by
  intro c forward remains b c' ran
  rcases first : d c with ⟨stop | a, c₁⟩
  · rw [bind_error first] at ran
    cases ran
  · rw [bind_ok first] at ran
    obtain ⟨_, rfl⟩ := Prod.mk.inj ran
    exact short c forward remains a _ first

def eachBytes (write : Nat → α → Bytes) : Nat → List α → Bytes
  | _, [] => []
  | i, x :: xs => write i x ++ eachBytes write (i + 1) xs

theorem eachBytes_const (write : α → Bytes) (xs : List α) (i : Nat) :
    eachBytes (fun _ => write) i xs = xs.flatMap write := by
  induction xs generalizing i with
  | nil => rfl
  | cons x xs ih => rw [eachBytes, ih, List.flatMap_cons]

theorem reads_each_at {read : Nat → Scanner ε α} {write : Nat → α → Bytes} {n : Nat} (count : xs.length = n) (i : Nat)
    (reads : ∀ k a, xs[k]? = some a → Reads (read (i + k)) (write (i + k) a) a) :
    Reads (each read n i) (eachBytes write i xs) ⟨xs, count⟩ := by
  subst count
  induction xs generalizing i with
  | nil => exact reads_pure _
  | cons x xs ih =>
    refine (reads 0 x rfl).bind (ih (i + 1) ?_).last
    intro k a found
    rw [Nat.add_right_comm]
    exact reads (k + 1) a found

theorem ahead_each {read : Nat → Scanner ε α} {write : Nat → α → Bytes} {n : Nat} (count : xs.length = n) (i : Nat)
    (reads : ∀ k a, xs[k]? = some a → ReadsAhead (read (i + k)) (write (i + k) a) a) :
    ReadsAhead (each read n i) (eachBytes write i xs) ⟨xs, count⟩ := by
  subst count
  induction xs generalizing i with
  | nil => exact (reads_pure _).ahead
  | cons x xs ih =>
    refine (reads 0 x rfl).bind (ih (i + 1) ?_).last
    intro k a found
    rw [Nat.add_right_comm]
    exact reads (k + 1) a found

theorem ahead_repeated {turn : σ → Scanner ε σ} {steps : List (Bytes × (σ → σ))}
    (reads : ∀ step ∈ steps, ∀ st, ReadsAhead (turn st) step.1 (step.2 st)) (st : σ) :
    ReadsAhead (repeated turn steps.length st) (steps.flatMap Prod.fst)
      (steps.foldl (fun st step => step.2 st) st) := by
  induction steps generalizing st with
  | nil => exact (reads_pure st).ahead
  | cons step steps ih =>
    rw [List.flatMap_cons]
    exact (reads step List.mem_cons_self st).bind
      (ih (fun later member => reads later (List.mem_cons_of_mem _ member)) _)

theorem repeated_concat (turn : σ → Scanner ε σ) (n : Nat) (st : σ) :
    repeated turn (n + 1) st = repeated turn n st >>= turn := by
  induction n generalizing st with
  | zero =>
    funext c
    simp only [repeated, bind, pure]
    rcases turn st c with ⟨stop | a, c'⟩ <;> rfl
  | succ n ih =>
    calc repeated turn (n + 2) st = turn st >>= fun st' => repeated turn (n + 1) st' := rfl
      _ = turn st >>= fun st' => repeated turn n st' >>= turn := by rw [funext ih]
      _ = repeated turn (n + 1) st >>= turn := (bind_bind ..).symm

end Scanner

end KafGo.Lib
