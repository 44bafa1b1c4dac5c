import KafGo.Lib.Route
import KafGo.Wire.Request

/-!
# Decoding a request stays in its payload

The route of a request lists its fields. A decoder strays where a length, a count or a size is out of range: null for
a string or an array that is allocated, or so large that the bound check of the reader wraps around or the allocation
is refused.
-/

namespace KafGo.Wire
open Lib Scanner

namespace Bounds

def fixed (n : Nat) : Route := .parsed (takeBytes n) fun _ => .stay

def nullableString : Route := .parsed takeInt16 fun n =>
  if n.toInt = -1 then .stay else if n.toInt < 1 then .error else .span n.toInt.toNat

/-- A null string counts as one of `2 ^ 64 - 1` bytes. -/
def compactString : Route := .parsed takeUvarint fun n => .span (n - 1).toNat

def compactNullableString : Route := .parsed takeUvarint fun wl => if wl = 0 then .stay else .span (wl - 1).toNat

/-- Bytes whose length is checked, up to the one that `int(wl) - 1` makes positive again. -/
def checkedBytes (null : Route) : Route := .parsed takeUvarint fun wl =>
  if wl = 0 then null else if wl.toNat > 2 ^ 63 then .error else .span (wl - 1).toNat

def compactBytes : Route := checkedBytes .error

def compactRecords : Route := checkedBytes .stay

section Arrays

variable [Memory] (α : Type) [Sized α] (r : Route)

/-- The elements of an array that is allocated with its length. -/
def elements (n : Int) : Route :=
  if 0 ≤ n then (Route.room (n.toNat * Sized.size α)).andThen (.many r n.toNat) else .lost

def made : Route := .parsed takeArrayLen (elements α r)

def madeOrNull : Route := .parsed takeArrayLen fun n => if n = -1 then .stay else elements α r n

def grown : Route := .parsed takeArrayLen fun n =>
  (Route.each (fun i => r.andThen (.room ((i + 1) * Sized.size α))) n.toNat 0).andThen (.room (n.toNat * Sized.size α))

end Arrays

/-- Tagged fields, with the route of a field by its tag and its size. -/
def tagged (field : UInt64 × UInt64 → Route) : Route :=
  .parsed takeUvarint fun count => .many (.parsed takeTag field) count.toNat

def taggedFields : Route := tagged fun field => .span field.2.toNat

/-- A field with an unknown tag is looked at and not skipped. -/
def unknownField (size : UInt64) : Route := fun total left =>
  if left = [] then .ends else Route.glance size.toNat total left

def knownFields (zero one : Route) : Route := tagged fun field =>
  if field.1 = 0 then zero else if field.1 = 1 then one else unknownField field.2

end Bounds

open Bounds

/-! ### Readers follow their routes -/

instance (path : String) {α : Type} {d : Decoder α} {r : Route} [Follows d r] : Follows (within path d) r :=
  follows_mapError _

theorem follows_span (n : UInt64) : Follows (take eof (asInt n)) (.span n.toNat) := follows_take eof n.toNat_lt

section Fixed

theorem follows_fixed {α : Type} {n : Nat} (small : n ≤ 2 ^ 48) (f : Bytes → α) :
    Follows (do return f (← readFixed n)) (fixed n) :=
  follows_last (readFixed_parses small).follows f

instance : Follows readBool (fixed 1) := follows_fixed (by decide) _
instance : Follows readInt8 (fixed 1) := follows_fixed (by decide) _
instance : Follows readInt16 (fixed 2) := follows_fixed (by decide) _
instance : Follows readInt32 (fixed 4) := follows_fixed (by decide) _
instance : Follows readInt64 (fixed 8) := follows_fixed (by decide) _
instance : Follows readUUID (fixed 16) := follows_fixed (by decide) _

end Fixed

instance : Follows readNullableString nullableString := by
  refine follows_parsed readInt16_parses fun v => ?_
  dsimp only
  split
  · exact follows_pure _
  · split
    · exact follows_fail _
    · have bound := v.toInt_lt
      have length : wrapSigned 64 (v.toInt.toNat : Int) = v.toInt := by
        rw [wrapSigned_natCast (by decide) (by omega)]
        omega
      have taken : Follows (take eof (wrapSigned 64 (v.toInt.toNat : Int))) (.span v.toInt.toNat) :=
        follows_take eof (by omega)
      rw [length] at taken
      exact follows_last taken _

instance : Follows readCompactString compactString := by
  refine follows_parsed readUVarInt_parses fun n => ?_
  split
  · rename_i empty
    rw [empty]
    exact follows_pure _
  · exact follows_span _

instance : Follows readCompactNullableString compactNullableString := by
  refine follows_parsed readUVarInt_parses fun wl => ?_
  by_cases null : wl = 0
  · rw [if_pos null, if_pos null]
    exact follows_pure _
  · rw [if_neg null, if_neg null]
    dsimp only
    rw [asInt_pred null]
    split
    · rename_i empty
      rw [asInt_eq_zero.mp empty]
      exact follows_pure _
    · exact follows_last (follows_span _) _

theorem follows_checked {α : Type} {wl : UInt64} (present : wl ≠ 0) (e : String) {d : Int → Decoder α}
    (follows : Follows (d (asInt (wl - 1))) (.span (wl - 1).toNat)) :
    Follows (if wrapSigned 64 (asInt wl - 1) < 0 then fail e else d (wrapSigned 64 (asInt wl - 1)))
      (if wl.toNat > 2 ^ 63 then .error else .span (wl - 1).toNat) := by
  have pred := pred_toNat present
  rw [asInt_pred present]
  by_cases large : wl.toNat > 2 ^ 63
  · have negative := asInt_large (n := wl - 1) (by omega)
    have bound := wl.toNat_lt
    rw [if_pos large, if_pos (by omega)]
    exact follows_fail _
  · have positive := asInt_small (n := wl - 1) (by omega)
    rw [if_neg large, if_neg (by omega)]
    exact follows

theorem follows_readInto (n : UInt64) : Follows (readInto (asInt n)) (.span n.toNat) :=
  follows_last (follows_span n) _

instance : Follows readCompactBytes compactBytes := by
  refine follows_parsed readUVarInt_parses fun wl => ?_
  by_cases null : wl = 0
  · rw [if_pos null, null]
    exact follows_fail _
  · rw [if_neg null]
    exact follows_checked null _ (follows_readInto _)

instance : Follows readCompactRecords compactRecords := by
  refine follows_parsed readUVarInt_parses fun wl => ?_
  by_cases null : wl = 0
  · rw [if_pos null, if_pos null]
    exact follows_pure _
  · rw [if_neg null, if_neg null]
    exact follows_checked null _ (d := fun n => do return some (← readInto n)) (follows_last (follows_readInto _) _)

section Arrays

variable [Memory] {α : Type} [Sized α] {r : Route}

theorem follows_allocate (n : Nat) : Follows (allocate n) (Route.room n) where
  keeps c := by
    unfold allocate
    by_cases room : Allocates n c.remaining
    · rw [dif_pos room]
      exact ⟨rfl, List.suffix_refl _⟩
    · rw [dif_neg room]
      exact ⟨rfl, List.suffix_refl _⟩
  goes c forward := by
    unfold allocate Route.room
    by_cases room : Allocates n c.remaining
    · rw [dif_pos room, if_pos room]
      exact ⟨⟨_, rfl⟩, forward, rfl⟩
    · rw [dif_neg room, if_neg room]
      exact Or.inl rfl

theorem follows_makeSlice {read : Nat → Decoder α} (follows : ∀ i, Follows (read i) r) (n : Int) :
    Follows (makeSlice n read) (elements α r n) := by
  unfold makeSlice elements
  split
  · exact follows_bind (follows_allocate _) fun _ => follows_last (follows_each follows _ _) _
  · exact follows_panic

instance {read : Nat → Decoder α} [follows : ∀ i, Follows (read i) r] : Follows (readArray read) (made α r) :=
  follows_parsed readCompactArrayLen_parses (follows_makeSlice follows)

theorem follows_readAppend {read : Decoder α} (follows : Follows read r) (i : Nat) :
    Follows (readAppend read i) (r.andThen (.room ((i + 1) * Sized.size α))) :=
  follows_bind follows fun _ => follows_last (follows_allocate _) _

instance {read : Decoder α} [follows : Follows read r] : Follows (appendArray read) (grown α r) := by
  refine follows_parsed readCompactArrayLen_parses fun n => ?_
  refine follows_bind (follows_each (follows_readAppend follows) n.toNat 0) fun xs => ?_
  exact follows_last (follows_allocate _) _

end Arrays

theorem follows_tagged {σ : Type} {turn : σ → Decoder σ} {field : UInt64 × UInt64 → Route}
    (follows : ∀ st, Follows (turn st) (.parsed takeTag field)) (st : σ) :
    Follows (do repeated turn (← readUVarInt).toNat st) (tagged field) :=
  follows_parsed readUVarInt_parses fun count => follows_repeated follows count.toNat st

theorem follows_skipped (n : UInt64) : Follows (skip eof (asInt n)) (.span n.toNat) := follows_skip eof n.toNat_lt

instance : Follows readTaggedFields taggedFields := by
  unfold readTaggedFields taggedFields
  refine follows_tagged (fun _ => ?_) ()
  refine follows_parsed readTag_parses fun field => ?_
  exact follows_skipped field.2

instance (n : UInt64) : Follows (readRawBytes (asInt n)) (unknownField n) where
  keeps := by
    refine keeps_bind (fun c => ⟨rfl, List.suffix_refl _⟩) fun finished => ?_
    split
    · exact keeps_fail _
    · exact keeps_bind (keeps_peek _ _) fun _ => keeps_pure _
  goes c forward := by
    have left := forward.left
    have bounds := forward.bounds
    have peeked : Follows (do let _ ← peek eof (asInt n); return ()) (Route.glance n.toNat) :=
      follows_last (follows_peek eof n.toNat_lt) _
    have asked : (done : Decoder Bool) c = (.ok (decide (c.pos ≥ c.size)), c) := rfl
    unfold readRawBytes unknownField
    rw [bind_ok asked]
    by_cases empty : c.remaining = []
    · rw [empty] at left
      rw [if_pos empty, if_pos (by simp at left ⊢; omega)]
      exact ⟨⟨eof, rfl⟩, forward⟩
    · have more : c.remaining.length ≠ 0 := fun none => empty (List.length_eq_zero_iff.mp none)
      rw [if_neg empty, if_neg (by simp; omega)]
      exact peeked.goes c forward

end KafGo.Wire
