import SchemaHighlighter.Text.Basic

/-!
# Reading text from bytes

Bytes are read as UTF-8. Each longest part that could begin a character and does not go on to
make one is read as U+FFFD, and so is a byte that begins none.
-/
namespace SchemaHighlighter.Text

/-- A character begun: the bits so far, how many bytes are still due, and the least and
greatest value that the next of them may have. -/
structure Begun where
  bits : Nat
  due : Nat
  low : UInt8 := 0x80
  high : UInt8 := 0xBF
  deriving DecidableEq, Repr

/-- The character that a byte begins, if it is not one by itself. -/
def lead? (b : UInt8) : Option Begun :=
  if b < 0xC2 then none
  else if b < 0xE0 then some ⟨b.toNat % 32, 1, 0x80, 0xBF⟩
  else if b < 0xF0 then
    some ⟨b.toNat % 16, 2, if b = 0xE0 then 0xA0 else 0x80, if b = 0xED then 0x9F else 0xBF⟩
  else if b < 0xF5 then
    some ⟨b.toNat % 8, 3, if b = 0xF0 then 0x90 else 0x80, if b = 0xF4 then 0x8F else 0xBF⟩
  else none

/-- Reads on, inside a character if one is begun. -/
def decodeFrom : Option Begun → List UInt8 → Text
  | none, [] => []
  | some _, [] => ['\uFFFD']
  | none, b :: rest =>
    if b < 0x80 then Char.ofUInt8 b :: decodeFrom none rest
    else match lead? b with
      | some g => decodeFrom (some g) rest
      | none => '\uFFFD' :: decodeFrom none rest
  | some g, b :: rest =>
    if g.low ≤ b ∧ b ≤ g.high then
      let bits := g.bits * 64 + b.toNat % 64
      if g.due ≤ 1 then Char.ofNat bits :: decodeFrom none rest
      else decodeFrom (some ⟨bits, g.due - 1, 0x80, 0xBF⟩) rest
    else if b < 0x80 then '\uFFFD' :: Char.ofUInt8 b :: decodeFrom none rest
    else
      '\uFFFD' :: match lead? b with
        | some g => decodeFrom (some g) rest
        | none => '\uFFFD' :: decodeFrom none rest

def decode (bytes : List UInt8) : Text := decodeFrom none bytes

end SchemaHighlighter.Text
