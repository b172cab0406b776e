/-!
# Text measured in UTF-8 bytes

A text is a list of characters, and every length and offset into it counts UTF-8 bytes.
A cut at a byte count keeps the characters that lie wholly before it, so no cut divides a
character. Main statements: the two halves of a cut make up the text, the first half is never
longer than asked, and the boundaries are the offsets that no cut has to move.
-/
namespace SchemaHighlighter

abbrev Text := List Char

namespace Text

def byteLength : Text → Nat
  | [] => 0
  | c :: rest => c.utf8Size + byteLength rest

/-- The characters that lie wholly within the first `n` bytes. -/
def takeBytes : Nat → Text → Text
  | _, [] => []
  | n, c :: rest => if c.utf8Size ≤ n then c :: takeBytes (n - c.utf8Size) rest else []

/-- What `takeBytes n` leaves. -/
def dropBytes : Nat → Text → Text
  | _, [] => []
  | n, c :: rest => if c.utf8Size ≤ n then dropBytes (n - c.utf8Size) rest else c :: rest

/-- The greatest character boundary at or before byte `n`. -/
def floorBoundary (text : Text) (n : Nat) : Nat := byteLength (takeBytes n text)

/-- A byte offset between two characters, or at either end. -/
def IsBoundary (text : Text) (b : Nat) : Prop :=
  ∃ before after : Text, text = before ++ after ∧ byteLength before = b

/-- The bytes from `start` to `stop`, when both are character boundaries in order. -/
def slice? (text : Text) (start stop : Nat) : Option Text :=
  let upTo := takeBytes stop text
  if byteLength upTo = stop ∧ start ≤ stop ∧ floorBoundary upTo start = start then
    some (dropBytes start upTo)
  else none

def encode (text : Text) : List UInt8 := text.flatMap String.utf8EncodeChar

@[simp] theorem byteLength_nil : byteLength [] = 0 := rfl

@[simp] theorem byteLength_cons (c : Char) (rest : Text) :
    byteLength (c :: rest) = c.utf8Size + byteLength rest := rfl

@[simp] theorem byteLength_append (s t : Text) :
    byteLength (s ++ t) = byteLength s + byteLength t := by
  induction s with
  | nil => simp
  | cons c s ih => simp [ih, Nat.add_assoc]

theorem byteLength_pos {text : Text} (h : text ≠ []) : 0 < byteLength text := by
  cases text with
  | nil => exact absurd rfl h
  | cons c rest => have := c.utf8Size_pos; simp; omega

theorem takeBytes_append_dropBytes (n : Nat) (text : Text) :
    takeBytes n text ++ dropBytes n text = text := by
  induction text generalizing n with
  | nil => rfl
  | cons c rest ih =>
    simp only [takeBytes, dropBytes]
    split
    · simp [ih]
    · rfl

theorem byteLength_takeBytes_le (n : Nat) (text : Text) : byteLength (takeBytes n text) ≤ n := by
  induction text generalizing n with
  | nil => exact Nat.zero_le n
  | cons c rest ih =>
    simp only [takeBytes]
    split
    · have := ih (n - c.utf8Size); simp only [byteLength_cons]; omega
    · exact Nat.zero_le n

theorem byteLength_takeBytes_le_byteLength (n : Nat) (text : Text) :
    byteLength (takeBytes n text) ≤ byteLength text := by
  have h := congrArg byteLength (takeBytes_append_dropBytes n text)
  rw [byteLength_append] at h
  omega

theorem byteLength_dropBytes_le_byteLength (n : Nat) (text : Text) :
    byteLength (dropBytes n text) ≤ byteLength text := by
  have h := congrArg byteLength (takeBytes_append_dropBytes n text)
  rw [byteLength_append] at h
  omega

theorem takeBytes_of_byteLength_le {n : Nat} {text : Text} (h : byteLength text ≤ n) :
    takeBytes n text = text := by
  induction text generalizing n with
  | nil => rfl
  | cons c rest ih =>
    simp only [byteLength_cons] at h
    have fits : c.utf8Size ≤ n := by omega
    simp only [takeBytes, fits, ↓reduceIte]
    rw [ih (by omega)]

/-- Only a cut inside the text leaves something behind. -/
theorem lt_byteLength_of_drop_ne_nil {n : Nat} {text : Text}
    (h : text.drop (takeBytes n text).length ≠ []) : n < byteLength text := by
  apply Nat.lt_of_not_le
  intro whole
  rw [takeBytes_of_byteLength_le whole] at h
  exact h (List.drop_length)

theorem takeBytes_isPrefix (n : Nat) (text : Text) : takeBytes n text <+: text :=
  ⟨dropBytes n text, takeBytes_append_dropBytes n text⟩

theorem dropBytes_eq_drop (n : Nat) (text : Text) :
    dropBytes n text = text.drop (takeBytes n text).length := by
  have h := congrArg (List.drop (takeBytes n text).length) (takeBytes_append_dropBytes n text)
  simpa using h

theorem floorBoundary_le (text : Text) (n : Nat) : floorBoundary text n ≤ n :=
  byteLength_takeBytes_le n text

theorem isBoundary_floorBoundary (text : Text) (n : Nat) : IsBoundary text (floorBoundary text n) :=
  ⟨_, _, (takeBytes_append_dropBytes n text).symm, rfl⟩

/-- A cut at the length of the first part gives that part back. -/
theorem takeBytes_byteLength_append (s t : Text) : takeBytes (byteLength s) (s ++ t) = s := by
  induction s with
  | nil =>
    cases t with
    | nil => rfl
    | cons c rest => have := c.utf8Size_pos; simp [takeBytes]; omega
  | cons c s ih => simp [takeBytes, ih]

theorem dropBytes_byteLength_append (s t : Text) : dropBytes (byteLength s) (s ++ t) = t := by
  have h := takeBytes_append_dropBytes (byteLength s) (s ++ t)
  rw [takeBytes_byteLength_append] at h
  exact List.append_cancel_left h

/-- The boundaries are the offsets that no cut has to move. -/
theorem isBoundary_iff (text : Text) (b : Nat) : IsBoundary text b ↔ floorBoundary text b = b := by
  constructor
  · rintro ⟨before, after, rfl, rfl⟩
    rw [floorBoundary, takeBytes_byteLength_append]
  · intro h
    exact h ▸ isBoundary_floorBoundary text b

theorem takeBytes_floorBoundary (text : Text) (n : Nat) :
    takeBytes (floorBoundary text n) text = takeBytes n text := by
  have h := takeBytes_byteLength_append (takeBytes n text) (dropBytes n text)
  rwa [takeBytes_append_dropBytes] at h

theorem length_encode (text : Text) : (encode text).length = byteLength text := by
  induction text with
  | nil => rfl
  | cons c rest ih =>
    simp only [encode, List.flatMap_cons, List.length_append, String.length_utf8EncodeChar,
      byteLength_cons]
    have : (List.flatMap String.utf8EncodeChar rest).length = byteLength rest := ih
    omega

end Text

end SchemaHighlighter
