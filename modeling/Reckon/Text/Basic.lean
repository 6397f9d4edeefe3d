/-!
# Texts

Expressions, messages, file names and lines are all read from the left, one
code point at a time, and every position the calculator reports counts code
points from zero. So a text is kept as the list of its code points, and every
function on texts is a recursion on that list.
-/

namespace Reckon

/-- A text, as the list of its code points. -/
abbrev Text := List Char

end Reckon
