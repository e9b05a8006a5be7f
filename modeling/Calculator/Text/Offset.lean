/-!
# Byte offsets in a text

A text is a list of characters. A place in it is named by a *byte offset*, the number of bytes
that the UTF-8 form of everything before it takes. This module counts those bytes and turns a
byte offset back into a number of characters.

`charOffset` is total: an offset inside a character, or past the end of the text, goes back to
the nearest boundary and keeps its distance from there. So an offset past the end stays past the
end by as many places as it had bytes.
-/

namespace Calculator.Text

/-- The number of bytes that a text takes in UTF-8. -/
def byteLength : List Char → Nat
  | [] => 0
  | c :: text => c.utf8Size + byteLength text

@[simp] theorem byteLength_nil : byteLength [] = 0 := rfl

@[simp] theorem byteLength_cons (c : Char) (text : List Char) :
    byteLength (c :: text) = c.utf8Size + byteLength text := rfl

@[simp] theorem byteLength_append (left right : List Char) :
    byteLength (left ++ right) = byteLength left + byteLength right := by
  induction left with
  | nil => simp
  | cons c left ih =>
    rw [List.cons_append, byteLength_cons, byteLength_cons, ih]
    omega

/-- Every character takes a byte at least, so only the empty text takes none. -/
theorem length_le_byteLength (text : List Char) : text.length ≤ byteLength text := by
  induction text with
  | nil => exact Nat.le_refl 0
  | cons c text ih =>
    have hc := c.utf8Size_pos
    rw [List.length_cons, byteLength_cons]
    omega

/-- The number of characters before a byte offset, plus the bytes by which the offset lies behind
the last boundary at or before it. -/
def charOffset : List Char → Nat → Nat
  | [], offset => offset
  | c :: text, offset =>
    if offset < c.utf8Size then offset else charOffset text (offset - c.utf8Size) + 1

@[simp] theorem charOffset_zero (text : List Char) : charOffset text 0 = 0 := by
  cases text with
  | nil => rfl
  | cons c text => simp [charOffset, c.utf8Size_pos]

/-- What stands before a boundary counts in full, and the rest is measured from that boundary. -/
theorem charOffset_append (left right : List Char) (offset : Nat) :
    charOffset (left ++ right) (byteLength left + offset) = left.length + charOffset right offset := by
  induction left with
  | nil => simp
  | cons c left ih =>
    have hge : ¬ c.utf8Size + byteLength left + offset < c.utf8Size := by omega
    have hsub : c.utf8Size + byteLength left + offset - c.utf8Size = byteLength left + offset := by
      omega
    rw [List.cons_append, byteLength_cons, charOffset, if_neg hge, hsub, ih, List.length_cons]
    omega

/-- The boundary after `left` is as many characters in as `left` has. -/
theorem charOffset_byteLength (left right : List Char) :
    charOffset (left ++ right) (byteLength left) = left.length := by
  have h := charOffset_append left right 0
  simpa using h

end Calculator.Text
