import Reckon.Text.Printable

/-!
# Quoted texts

Messages name the offending text in quotes. The quote mark is `'`, or `"` when
the text holds a `'` and no `"`. Inside, the mark in use and the backslash get a
backslash, tab, line feed and carriage return have short escapes, any other code
point that is not printable is written in hexadecimal with two, four or eight
digits, and the rest stands as it is. So a quoted text never holds a line break,
and its end can be found from the left.
-/

namespace Reckon.Text

/-- The lower-case hexadecimal digits of a number, in a given width. -/
def hexDigits : (width : Nat) → (n : Nat) → Text
  | 0, _ => []
  | width + 1, n => hexDigits width (n / 16) ++ [Nat.digitChar (n % 16)]

/-- A code point as it stands between the given quote marks. -/
def escaped (mark c : Char) : Text :=
  if c = mark ∨ c = '\\' then ['\\', c]
  else if c = '\t' then ['\\', 't']
  else if c = '\n' then ['\\', 'n']
  else if c = '\r' then ['\\', 'r']
  else if isPrintable c then [c]
  else if c.toNat < 0x100 then '\\' :: 'x' :: hexDigits 2 c.toNat
  else if c.toNat < 0x10000 then '\\' :: 'u' :: hexDigits 4 c.toNat
  else '\\' :: 'U' :: hexDigits 8 c.toNat

/-- The quote mark a text is put between. -/
def quoteMark (t : Text) : Char :=
  if '\'' ∈ t ∧ '"' ∉ t then '"' else '\''

def quoted (t : Text) : Text :=
  quoteMark t :: t.flatMap (escaped (quoteMark t)) ++ [quoteMark t]

/-- A list of texts: quoted, between brackets, separated by a comma and a space. -/
def quotedList (ts : List Text) : Text :=
  '[' :: List.intercalate [',', ' '] (ts.map quoted) ++ [']']

end Reckon.Text
