import KafGo.Lib.Cursor

/-!
# Routes

A route says what a scanner should find in the bytes that remain: it reaches the bytes behind what it has read, it ends
with an error, or it strays, which is a panic or a position that leaves the buffer or goes back. `Follows` is proved
for a scanner from the scanners it is made of, so the route of a message is put together like its decoder.
-/

namespace KafGo.Lib

inductive Trip where
  | ends
  | strays
  | reaches (rest : Bytes)
  deriving DecidableEq

/-- The trip through the bytes that are left of a buffer of the given size. -/
def Route := Nat → Bytes → Trip

namespace Route

variable {α : Type}

def stay : Route := fun _ left => .reaches left

def error : Route := fun _ _ => .ends

def lost : Route := fun _ _ => .strays

def andThen (r s : Route) : Route := fun size left => match r size left with
  | .ends => .ends
  | .strays => .strays
  | .reaches rest => s size rest

def all : List Route → Route
  | [] => stay
  | r :: rs => r.andThen (all rs)

def each (r : Nat → Route) : (n : Nat) → (i : Nat) → Route
  | 0, _ => stay
  | n + 1, i => (r i).andThen (each r n (i + 1))

def many (r : Route) (n : Nat) : Route := each (fun _ => r) n 0

def room [Memory] (n : Nat) : Route := fun _ left => if Allocates n left then .reaches left else .strays

def parsed (p : Bytes → Option (α × Bytes)) (next : α → Route) : Route := fun size left => match p left with
  | none => .ends
  | some (a, rest) => next a size rest

/-- A number of bytes that an unsigned length announces. The trip ends if they are not there, but strays if the length
is so large that the position behind them is not a machine integer. -/
def span (k : Nat) : Route := fun size left =>
  if k ≤ left.length then .reaches (left.drop k)
  else if size - left.length + k < 2 ^ 63 then .ends
  else .strays

def glance (k : Nat) : Route := fun size left => match span k size left with
  | .ends => .ends
  | .strays => .strays
  | .reaches _ => .reaches left

theorem andThen_stay (r : Route) : r.andThen stay = r := by
  funext size left
  unfold andThen
  cases r size left <;> rfl

end Route

namespace Scanner

variable {ε α β σ : Type}

def Goes (out : Except (Stop ε) α × Cursor) : Trip → Prop
  | .ends => (∃ e, out.1 = .error (.error e)) ∧ out.2.Forward
  | .strays => out.1 = .error .panics ∨ ¬ out.2.Forward
  | .reaches rest => (∃ a, out.1 = .ok a) ∧ out.2.Forward ∧ out.2.remaining = rest

/-- From every position in a buffer the scanner goes the way of the route. -/
class Follows (d : Scanner ε α) (route : Route) : Prop where
  keeps : Keeps d
  goes : ∀ c, c.Forward → Goes (d c) (route c.size c.remaining)

instance follows_pure (a : α) : Follows (pure a : Scanner ε α) Route.stay where
  keeps := keeps_pure a
  goes _ forward := ⟨⟨a, rfl⟩, forward, rfl⟩

instance follows_all_nil (a : α) : Follows (pure a : Scanner ε α) (Route.all []) := follows_pure a

theorem follows_fail (e : ε) : Follows (fail e : Scanner ε α) Route.error where
  keeps := keeps_fail e
  goes _ forward := ⟨⟨e, rfl⟩, forward⟩

theorem follows_panic : Follows (panic : Scanner ε α) Route.lost where
  keeps := keeps_panic
  goes _ _ := Or.inl rfl

variable {d : Scanner ε α} {k : α → Scanner ε β} {r : Route}

theorem Goes.bind {s : Route} {c : Cursor} (later : ∀ a, Keeps (k a)) (first : Goes (d c) (r c.size c.remaining))
    (next : ∀ a c', d c = (.ok a, c') → c'.Forward → Goes (k a c') (s c.size c'.remaining)) :
    Goes ((d >>= k) c) (r.andThen s c.size c.remaining) := by
  unfold Route.andThen
  cases trip : r c.size c.remaining with
  | ends =>
    rw [trip] at first
    obtain ⟨⟨e, failed⟩, forward⟩ := first
    have ran : d c = (.error (.error e), (d c).2) := Prod.ext failed rfl
    rw [bind_error ran]
    exact ⟨⟨e, rfl⟩, forward⟩
  | strays =>
    rw [trip] at first
    rcases ran : d c with ⟨stop | a, c'⟩
    · rw [bind_error ran]
      rw [ran] at first
      rcases first with panicked | strayed
      · left
        rw [Except.error.inj panicked]
      · exact Or.inr strayed
    · rw [bind_ok ran]
      rw [ran] at first
      rcases first with panicked | strayed
      · cases panicked
      · exact Or.inr ((later a).stray strayed)
  | reaches rest =>
    rw [trip] at first
    obtain ⟨⟨a, ok⟩, forward, remains⟩ := first
    have ran : d c = (.ok a, (d c).2) := Prod.ext ok rfl
    rw [bind_ok ran]
    have onward := next a (d c).2 ran forward
    rwa [remains] at onward

theorem follows_bind {s : Route} (first : Follows d r) (next : ∀ a, Follows (k a) s) :
    Follows (d >>= k) (r.andThen s) where
  keeps := keeps_bind first.keeps fun a => (next a).keeps
  goes c forward := by
    refine Goes.bind (fun a => (next a).keeps) (first.goes c forward) fun a c' ran ahead => ?_
    have same : c'.size = c.size := by
      have kept := (first.keeps c).1
      rw [ran] at kept
      exact congrArg (fun b => b.bytes.length) kept
    have goes := (next a).goes c' ahead
    rwa [same] at goes

instance follows_cons {d : Scanner ε α} {k : α → Scanner ε β} {r : Route} {rs : List Route} [first : Follows d r]
    [next : ∀ a, Follows (k a) (Route.all rs)] : Follows (d >>= k) (Route.all (r :: rs)) :=
  follows_bind first next

theorem follows_parsed {p : Bytes → Option (α × Bytes)} {next : α → Route} (parses : Parses d p)
    (later : ∀ a, Follows (k a) (next a)) : Follows (d >>= k) (Route.parsed p next) where
  keeps := keeps_bind parses.keeps fun a => (later a).keeps
  goes c forward := by
    unfold Route.parsed
    cases found : p c.remaining with
    | none =>
      obtain ⟨e, c', ran, ahead⟩ := parses.rejects c forward found
      rw [bind_error ran]
      exact ⟨⟨e, rfl⟩, ahead⟩
    | some result =>
      obtain ⟨a, rest⟩ := result
      obtain ⟨c', ran, onward⟩ := parses.accepts c a rest forward found
      have same : c'.size = c.size := congrArg (fun b => b.bytes.length) onward.buff
      rw [bind_ok ran]
      have goes := (later a).goes c' onward.forward
      rwa [same, onward.remaining] at goes

theorem Parses.follows {p : Bytes → Option (α × Bytes)} (parses : Parses d p) :
    Follows d (Route.parsed p fun _ => Route.stay) where
  keeps := parses.keeps
  goes c forward := by
    unfold Route.parsed
    cases found : p c.remaining with
    | none =>
      obtain ⟨e, c', ran, ahead⟩ := parses.rejects c forward found
      rw [ran]
      exact ⟨⟨e, rfl⟩, ahead⟩
    | some result =>
      obtain ⟨c', ran, onward⟩ := parses.accepts c result.1 result.2 forward found
      rw [ran]
      exact ⟨⟨_, rfl⟩, onward.forward, onward.remaining⟩

instance follows_mapError (f : ε → ε) {d : Scanner ε α} {r : Route} [follows : Follows d r] :
    Follows (mapError f d) r where
  keeps := keeps_mapError f follows.keeps
  goes c forward := by
    have goes := follows.goes c forward
    unfold mapError
    rcases ran : d c with ⟨(e | _) | a, c'⟩ <;> rw [ran] at goes <;> dsimp only
    · cases trip : r c.size c.remaining <;> rw [trip] at goes
      · exact ⟨⟨f e, rfl⟩, goes.2⟩
      · exact goes.imp_left fun panicked => by cases panicked
      · obtain ⟨⟨a, ok⟩, _⟩ := goes
        cases ok
    · exact goes
    · exact goes

/-- An unsigned length with which the position would not be a machine integer, converted to a signed one. -/
theorem converted_insane {p : Int} {k : Nat} (word : k < 2 ^ 64) (beyond : ¬ p + k < 2 ^ 63) :
    ¬ (0 ≤ wrapSigned 64 (k : Int) ∧ p + wrapSigned 64 (k : Int) < 2 ^ 63) := by
  by_cases large : 2 ^ 63 ≤ k
  · have negative : wrapSigned 64 (k : Int) = k - 2 ^ 64 := wrapSigned_over (by omega) (by omega)
    omega
  · have same : wrapSigned 64 (k : Int) = k := wrapSigned_natCast (by decide) (by omega)
    omega

theorem converted_fits (k : Nat) : -2 ^ 63 ≤ wrapSigned 64 (k : Int) ∧ wrapSigned 64 (k : Int) < 2 ^ 63 :=
  signed_fits (by decide) (unsigned_lt 64 k)

section Lengths

variable (eof : ε) {k : Nat} {c : Cursor}

/-- The three cases of a length that comes from an unsigned integer and is converted to a signed one. -/
theorem span_cases (forward : c.Forward) (word : k < 2 ^ 64) :
    let n := wrapSigned 64 k
    (n = k ∧ k ≤ c.remaining.length ∧ Route.span k c.size c.remaining = .reaches (c.remaining.drop k)) ∨
      ((0 ≤ n ∧ c.pos + n < 2 ^ 63) ∧ ¬ n ≤ c.remaining.length ∧ Route.span k c.size c.remaining = .ends) ∨
      (¬ (0 ≤ n ∧ c.pos + n < 2 ^ 63) ∧ Route.span k c.size c.remaining = .strays) := by
  have left := forward.left
  have bounds := forward.bounds
  have fits : c.size ≤ 2 ^ 48 := c.buff.fits
  unfold Route.span
  by_cases sane : c.pos + k < 2 ^ 63
  · have same : wrapSigned 64 (k : Int) = k := wrapSigned_natCast (by decide) (by omega)
    by_cases room : k ≤ c.remaining.length
    · exact Or.inl ⟨same, room, if_pos room⟩
    · refine Or.inr (Or.inl ⟨by omega, by omega, ?_⟩)
      rw [if_neg room, if_pos (by omega)]
  · refine Or.inr (Or.inr ⟨converted_insane word sane, ?_⟩)
    rw [if_neg (by omega), if_neg (by omega)]

theorem sane_of_room (forward : c.Forward) (room : k ≤ c.remaining.length) :
    0 ≤ (k : Int) ∧ c.pos + (k : Int) < 2 ^ 63 := by
  have left := forward.left
  have fits : c.size ≤ 2 ^ 48 := c.buff.fits
  omega

theorem follows_peek (word : k < 2 ^ 64) : Follows (peek eof (wrapSigned 64 k)) (Route.glance k) where
  keeps := keeps_peek eof _
  goes c forward := by
    obtain ⟨v, _, ran⟩ := peek_apply forward eof (converted_fits k).1 (converted_fits k).2
    unfold Route.glance
    rcases span_cases forward word with ⟨same, room, trip⟩ | ⟨sane, short, trip⟩ | ⟨insane, trip⟩
    · rw [same, if_pos (sane_of_room forward room), if_pos (by omega)] at ran
      rw [same, ran, trip]
      exact ⟨⟨v, rfl⟩, forward, rfl⟩
    · rw [if_pos sane, if_neg short] at ran
      rw [ran, trip]
      exact ⟨⟨eof, rfl⟩, forward⟩
    · rw [if_neg insane] at ran
      rw [ran, trip]
      exact Or.inl rfl

theorem follows_take (word : k < 2 ^ 64) : Follows (take eof (wrapSigned 64 k)) (Route.span k) where
  keeps := keeps_take eof _
  goes c forward := by
    obtain ⟨v, _, ran⟩ := take_apply forward eof (converted_fits k).1 (converted_fits k).2
    rcases span_cases forward word with ⟨same, room, trip⟩ | ⟨sane, short, trip⟩ | ⟨insane, trip⟩
    · have onward := onward_moved forward room
      rw [same, if_pos (sane_of_room forward room), if_pos (by omega)] at ran
      rw [same, ran, trip]
      exact ⟨⟨v, rfl⟩, onward.forward, onward.remaining⟩
    · rw [if_pos sane, if_neg short] at ran
      rw [ran, trip]
      exact ⟨⟨eof, rfl⟩, forward⟩
    · rw [if_neg insane] at ran
      rw [ran, trip]
      exact Or.inl rfl

/-- A move without a look at the bytes: the check passes where `take` panics, and the position is left outside the
buffer or behind. -/
theorem follows_skip (word : k < 2 ^ 64) : Follows (skip eof (wrapSigned 64 k)) (Route.span k) where
  keeps := keeps_skip eof _
  goes c forward := by
    have left := forward.left
    have bounds := forward.bounds
    have fits : c.size ≤ 2 ^ 48 := c.buff.fits
    have required := require_apply eof (wrapSigned 64 (k : Int)) c
    unfold skip
    rcases span_cases forward word with ⟨same, room, trip⟩ | ⟨sane, short, trip⟩ | ⟨insane, trip⟩
    · have onward := onward_moved forward room
      have landed := forward.moved_pos room
      change wrapSigned 64 (c.pos + k) = c.pos + k at landed
      rw [same, landed, if_neg (by omega)] at required
      rw [same, bind_ok required, trip]
      exact ⟨⟨(), rfl⟩, onward.forward, onward.remaining⟩
    · have sum : wrapSigned 64 (c.pos + wrapSigned 64 k) = c.pos + wrapSigned 64 k :=
        wrapSigned_fits (by decide) (by omega) sane.2
      rw [sum, if_pos (by omega)] at required
      rw [bind_error required, trip]
      exact ⟨⟨eof, rfl⟩, forward⟩
    · have back := wrapSigned_back bounds.1 (by omega) (converted_fits k).1 (converted_fits k).2 insane
      rw [if_neg (by omega)] at required
      rw [bind_ok required, trip]
      refine Or.inr fun ahead => ?_
      have ordered := (List.pairwise_cons.mp ahead.ordered).1 c.pos List.mem_cons_self
      change c.pos ≤ wrapSigned 64 (c.pos + wrapSigned 64 (k : Int)) at ordered
      omega

end Lengths

theorem follows_last (follows : Follows d r) (f : α → β) :
    Follows (do return f (← d)) r := by
  have both := follows_bind (k := fun a => pure (f a)) follows fun a => follows_pure (f a)
  rwa [Route.andThen_stay] at both

theorem follows_each {read : Nat → Scanner ε α} {r : Nat → Route} (follows : ∀ i, Follows (read i) (r i)) (n i : Nat) :
    Follows (each read n i) (Route.each r n i) := by
  induction n generalizing i with
  | zero => exact follows_pure _
  | succ n ih => exact follows_bind (follows i) fun x => follows_last (ih (i + 1)) _

theorem follows_repeated {turn : σ → Scanner ε σ} (follows : ∀ st, Follows (turn st) r) (n : Nat) (st : σ) :
    Follows (repeated turn n st) (Route.many r n) := by
  have turns : ∀ i, Follows (repeated turn n st) (Route.each (fun _ => r) n i) := by
    induction n generalizing st with
    | zero => exact fun _ => follows_pure st
    | succ n ih => exact fun i => follows_bind (follows st) fun next => ih next (i + 1)
  exact turns 0

end Scanner

end KafGo.Lib
