import KafGo.Wire.Request
import KafGo.Wire.RoundTrip

/-!
# Request headers

The writer puts an empty client id as a string of length zero, which the reader refuses.
-/

namespace KafGo.Wire
open Lib Scanner

/-- `int16(len(value))` and the bytes. -/
def writeString (s : Octets) : Bytes := writeInt16 (.ofNat s.bytes.length) ++ s.bytes

def writeNullableString : NullableString → Bytes
  | none => writeInt16 (-1)
  | some s => writeString s

def RequestHeader.encode (h : RequestHeader) : Bytes :=
  writeInt16 h.apiKey ++ (writeInt16 h.apiVersion ++ (writeInt32 h.correlationId ++ (writeNullableString h.clientId ++
    if isFlexible h.apiKey h.apiVersion then writeEmptyTaggedFields else [])))

section Strings

variable {s : Octets} (short : s.bytes.length ≤ 32767)

include short

theorem length_int16 : (Int16.ofNat s.bytes.length).toInt = s.bytes.length := Int16.toInt_ofNat_of_lt (by omega)

theorem reads_string (nonempty : s.bytes ≠ []) : Reads readNullableString (writeString s) (some s) := by
  have positive := List.length_pos_of_ne_nil nonempty
  refine (reads_int16 _).bind ?_
  rw [length_int16 short, if_neg (by omega), if_neg (by omega)]
  exact (reads_take eof s).last

end Strings

theorem reads_null :
    Reads readNullableString (writeNullableString none) none := (reads_int16 (-1)).finish (reads_pure none)

theorem readNullableString_empty {c : Cursor} {rest : Bytes} {s : Octets} (forward : c.Forward) (empty : s.bytes = [])
    (remains : c.remaining = writeString s ++ rest) :
    ∃ c', readNullableString c = (.error (.error "string: invalid length"), c') := by
  unfold writeString at remains
  rw [empty] at remains
  obtain ⟨c', ran, _⟩ := reads_int16 0 c ([] ++ rest) forward (by rw [remains, List.append_assoc]; rfl)
  exact ⟨c', bind_ok ran⟩

theorem reads_flexible (h : RequestHeader) :
    Reads (if isFlexible h.apiKey h.apiVersion then do readTaggedFields; return h else return h : Decoder RequestHeader)
      (if isFlexible h.apiKey h.apiVersion then writeEmptyTaggedFields else []) h := by
  split
  · exact reads_emptyTaggedFields.finish (reads_pure h)
  · exact reads_pure h

namespace RequestHeader

def Named (h : RequestHeader) : Prop := ∀ s, h.clientId = some s → s.bytes ≠ []

theorem reads_header {h : RequestHeader} (short : ∀ s, h.clientId = some s → s.bytes.length ≤ 32767) (named : h.Named) :
    Reads RequestHeader.decode h.encode h := by
  have client : Reads readNullableString (writeNullableString h.clientId) h.clientId := by
    cases id : h.clientId with
    | none => exact reads_null
    | some s => exact reads_string (short s id) (named s id)
  exact (reads_int16 _).bind ((reads_int16 _).bind ((reads_int32 _).bind (client.bind (reads_flexible h))))

theorem decode_unnamed {h : RequestHeader} {c : Cursor} {body : Bytes} {s : Octets} (forward : c.Forward)
    (remains : c.remaining = h.encode ++ body) (id : h.clientId = some s) (empty : s.bytes = []) :
    ∃ c', RequestHeader.decode c = (.error (.error "string: invalid length"), c') := by
  unfold RequestHeader.encode at remains
  rw [id] at remains
  simp only [List.append_assoc] at remains
  obtain ⟨c₁, key, on₁⟩ := reads_int16 h.apiKey c _ forward remains
  obtain ⟨c₂, version, on₂⟩ := reads_int16 h.apiVersion c₁ _ on₁.forward on₁.remaining
  obtain ⟨c₃, correlation, on₃⟩ := reads_int32 h.correlationId c₂ _ on₂.forward on₂.remaining
  obtain ⟨c₄, refused⟩ := readNullableString_empty on₃.forward empty on₃.remaining
  refine ⟨c₄, ?_⟩
  unfold RequestHeader.decode
  rw [bind_ok key, bind_ok version, bind_ok correlation, bind_error refused]

/-- A header is read back, up to the body behind it, exactly if its client id is not the empty string. -/
theorem header_reads_iff (h : RequestHeader) (short : ∀ s, h.clientId = some s → s.bytes.length ≤ 32767)
    (buff : Octets) (body : Bytes) (split : buff.bytes = h.encode ++ body) :
    (∃ c', RequestHeader.decode (.start buff) = (.ok h, c') ∧ c'.pos = h.encode.length ∧
      c'.remaining = body) ↔ h.Named := by
  have forward := Cursor.start_forward buff
  have remains : (Cursor.start buff).remaining = h.encode ++ body := split
  constructor
  · rintro ⟨c', ran, _⟩ s id empty
    obtain ⟨_, refused⟩ := decode_unnamed forward remains id empty
    rw [refused] at ran
    cases ran
  · intro named
    obtain ⟨c', ran, onward⟩ := reads_header short named (.start buff) body forward remains
    have position := onward.pos forward remains
    exact ⟨c', ran, by rw [position]; exact Int.zero_add _, onward.remaining⟩

def unnamedFetch : RequestHeader := ⟨1, 12, 7, none⟩

theorem header_reads_null :
    ∃ c', RequestHeader.decode (.start ⟨unnamedFetch.encode ++ [1], by decide⟩) = (.ok unnamedFetch, c') ∧
      c'.pos = unnamedFetch.encode.length ∧ c'.remaining = [1] :=
  (header_reads_iff unnamedFetch (fun s id => by cases id) ⟨unnamedFetch.encode ++ [1], by decide⟩ [1] rfl).mpr
    fun s id => by cases id

def emptyClient : RequestHeader := ⟨1, 12, 7, some .nil⟩

theorem empty_client_refused :
    ∃ c', RequestHeader.decode (.start ⟨emptyClient.encode, by decide⟩) =
      (.error (.error "string: invalid length"), c') :=
  decode_unnamed (Cursor.start_forward _) (List.append_nil _).symm rfl rfl

end RequestHeader

end KafGo.Wire
