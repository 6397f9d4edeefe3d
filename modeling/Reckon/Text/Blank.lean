import Reckon.Text.Basic

/-!
# White space

Two classes are in use. `isWhiteSpace` is the Unicode property White_Space.
`isBlank` adds the four information separators U+001C to U+001F, and is the
class that lines of a batch are trimmed by.
-/

namespace Reckon.Text

/-- The Unicode property White_Space. -/
def isWhiteSpace (c : Char) : Bool :=
  let n := c.toNat
  (0x09 ≤ n && n ≤ 0x0D) || n = 0x20 || n = 0x85 || n = 0xA0 || n = 0x1680
    || (0x2000 ≤ n && n ≤ 0x200A) || n = 0x2028 || n = 0x2029 || n = 0x202F
    || n = 0x205F || n = 0x3000

/-- White space or one of the information separators U+001C to U+001F. -/
def isBlank (c : Char) : Bool :=
  isWhiteSpace c || (0x1C ≤ c.toNat && c.toNat ≤ 0x1F)

/-- The text without the leading and trailing code points of a class. -/
def trimmedBy (p : Char → Bool) (t : Text) : Text :=
  ((t.dropWhile p).reverse.dropWhile p).reverse

/-- The text without the blanks at its two ends. -/
def trimmed (t : Text) : Text :=
  trimmedBy isBlank t

end Reckon.Text
