import Reckon.Text.Blank

/-!
# Lines

A text is cut into lines at every Unicode line boundary; a carriage return with
the line feed after it is one boundary, and a boundary at the very end opens no
further line. `contentLines` is what a batch works on: the lines, trimmed, less
those that hold nothing but blanks.
-/

namespace Reckon.Text

/-- Line feed, vertical tab, form feed, carriage return, U+001C to U+001E, next
line, line separator and paragraph separator. -/
def isLineBoundary (c : Char) : Bool :=
  let n := c.toNat
  (0x0A ≤ n && n ≤ 0x0D) || (0x1C ≤ n && n ≤ 0x1E) || n = 0x85 || n = 0x2028 || n = 0x2029

/-- Put a code point in front of the first line. -/
def extendFirst (c : Char) : List Text → List Text
  | [] => [[c]]
  | l :: ls => (c :: l) :: ls

/-- The lines of a text, without their boundaries. -/
def lines : Text → List Text
  | [] => []
  | '\r' :: '\n' :: t => [] :: lines t
  | c :: t => if isLineBoundary c then [] :: lines t else extendFirst c (lines t)

/-- The lines that hold more than blanks, each without the blanks at its ends. -/
def contentLines (t : Text) : List Text :=
  ((lines t).map trimmed).filter (· ≠ [])

/-- Every carriage return, with the line feed that may follow it, becomes a line
feed: the three newline conventions read alike. -/
def withLineFeeds : Text → Text
  | [] => []
  | '\r' :: '\n' :: t => '\n' :: withLineFeeds t
  | c :: t => (if c = '\r' then '\n' else c) :: withLineFeeds t

end Reckon.Text
