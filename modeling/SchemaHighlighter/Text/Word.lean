import SchemaHighlighter.Text.WordTable
import SchemaHighlighter.Text.Basic

/-!
# Words and keyword search

An occurrence of a keyword is a whole word when no word character touches either end. The search
runs from a limit towards the start of the text, over occurrences that do not overlap, and answers
the first whole word it meets.

Which characters are word characters is for a version of Unicode to say: those that may continue
an identifier. What is known of every version is that of ASCII these are the letters, the digits
and the underscore, and that no blank is one.
-/
namespace SchemaHighlighter.Text

/-- The characters with the Unicode property White_Space. -/
def isBlank (c : Char) : Bool :=
  let n := c.toNat
  (0x09 ≤ n && n ≤ 0x0D) || n = 0x20 || n = 0x85 || n = 0xA0 || n = 0x1680 ||
    (0x2000 ≤ n && n ≤ 0x200A) || n = 0x2028 || n = 0x2029 || n = 0x202F || n = 0x205F ||
    n = 0x3000

/-- What every version of Unicode says of the characters that may continue an identifier. -/
structure ContinuesIdentifiers (isWord : Char → Bool) : Prop where
  ascii : ∀ c, c.toNat < 0x80 → isWord c = (c.isAlphanum || c = '_')
  blank : ∀ c, isBlank c = true → isWord c = false

/-! ## The search -/

/-- Neither neighbour, where there is one, is a word character. -/
def isDelimited (isWord : Char → Bool) (before after : Option Char) : Bool :=
  !before.any isWord && !after.any isWord

/-- Whether the bytes from `start` to `stop` touch no further word character. -/
def isWholeWord (isWord : Char → Bool) (text : Text) (start stop : Nat) : Bool :=
  isDelimited isWord (takeBytes start text).getLast? (dropBytes stop text).head?

/-- The search for `keyword`, both it and the text before the current place read backwards.
`after` is the character that follows this place, and no occurrence ends here before `skip`
more characters are passed. -/
def searchBack (isWord : Char → Bool) (keyword : Text) : Text → Option Char → Nat → Option Nat
  | before, after, 0 =>
    let rest := before.drop keyword.length
    if keyword.isPrefixOf before && isDelimited isWord rest.head? after then some (byteLength rest)
    else
      let skip := if keyword.isPrefixOf before then keyword.length - 1 else 0
      match before with
      | [] => none
      | c :: before => searchBack isWord keyword before (some c) skip
  | [], _, _ + 1 => none
  | c :: before, _, skip + 1 => searchBack isWord keyword before (some c) skip

/-- The byte offset of the last whole-word occurrence of `keyword` that ends at or before
byte `limit`. -/
def findKeywordBefore (isWord : Char → Bool) (text keyword : Text) (limit : Nat) : Option Nat :=
  searchBack isWord keyword.reverse (takeBytes limit text).reverse (dropBytes limit text).head? 0

/-! ## Word characters of one version -/

/-- Whether a range of the table between the indices `low` and `high` holds `n`. -/
def searchRanges (table : Array (Nat × Nat)) (n : Nat) : Nat → Nat → Nat → Bool
  | 0, _, _ => false
  | fuel + 1, low, high =>
    if high ≤ low then false
    else
      let middle := (low + high) / 2
      match table[middle]? with
      | none => false
      | some (first, last) =>
        if n < first then searchRanges table n fuel low middle
        else if last < n then searchRanges table n fuel (middle + 1) high
        else true

/-- Unicode XID_Continue, version 15.1: letters, digits, marks and connecting punctuation. -/
def isWordChar (c : Char) : Bool :=
  if c.toNat < 0x80 then c.isAlphanum || c = '_'
  else searchRanges wordRanges c.toNat wordRanges.size 0 wordRanges.size

end SchemaHighlighter.Text
