import Reckon.Text.DigitValue
import Reckon.Text.Quoted

/-!
# Words of a command line

Every word of a command line is classified before any of them takes effect. A
word is a switch if it is the short or the long name of one, a long name cut
short without becoming ambiguous, or such a name with its argument attached. A
word that does not begin with a dash, a lone dash, a negative number and a word
with a space in it are plain. After the first `--` every word is plain.
-/

namespace Reckon.CommandLine

inductive Switch where
  | help
  | file
  | output
  | workers
deriving DecidableEq, Repr

namespace Switch

/-- All switches, in the order in which messages list them. -/
def all : List Switch := [help, file, output, workers]

def letter : Switch → Char
  | help => 'h'
  | file => 'f'
  | output => 'o'
  | workers => 'w'

def short (s : Switch) : Text := ['-', s.letter]

def long : Switch → Text
  | help => "--help".toList
  | file => "--file".toList
  | output => "--output".toList
  | workers => "--max-workers".toList

/-- Both names, as messages show them. -/
def label (s : Switch) : Text := s.short ++ ['/'] ++ s.long

def ofLetter? (c : Char) : Option Switch :=
  all.find? fun s => s.letter = c

end Switch

/-- A classified word. A switch may come with an attached argument; `isLong`
tells by which of its names it was called. -/
inductive Word where
  | plain (t : Text)
  | separator
  | switch (s : Switch) (attached : Option Text) (isLong : Bool)
  | unknown (t : Text)
deriving DecidableEq, Repr

namespace Word

/-- The text up to the first equals sign, and the text after it if there is one. -/
def splitEquals (t : Text) : Text × Option Text :=
  match t.dropWhile (· ≠ '=') with
  | [] => (t, none)
  | _ :: rest => (t.takeWhile (· ≠ '='), some rest)

/-- The switch with exactly this name. -/
def named? (name : Text) (attached : Option Text) : Option Word :=
  (Switch.all.findSome? fun s =>
    if s.short = name then some (switch s attached false)
    else if s.long = name then some (switch s attached true)
    else none)

/-- The switches a dashed word may stand for: after two dashes those whose long
name begins with it, otherwise the one of the letter after the dash, with the
rest of the word attached. -/
def candidates (t : Text) : List (Switch × Word) :=
  match t with
  | '-' :: '-' :: _ =>
    let (name, attached) := splitEquals t
    (Switch.all.filter fun s => name.isPrefixOf s.long).map fun s => (s, switch s attached true)
  | '-' :: c :: rest =>
    (Switch.all.filter fun s => s.letter = c).map fun s => (s, switch s (some rest) false)
  | _ => []

/-- Digits of any script, at least one. -/
def isDigits (t : Text) : Bool :=
  t ≠ [] && t.all Text.isDecimalDigit

/-- The text less one line feed at its end. -/
def withoutFinalLineFeed (t : Text) : Text :=
  if t.getLast? = some '\n' then t.dropLast else t

/-- A dash with digits after it, or with a decimal fraction. -/
def isNegativeNumber : Text → Bool
  | '-' :: t =>
    let t := withoutFinalLineFeed t
    isDigits t ||
      match t.dropWhile Text.isDecimalDigit with
      | '.' :: fraction => isDigits fraction
      | _ => false
  | _ => false

/-- The message for a word that may stand for several switches. -/
def ambiguous (t : Text) (switches : List Switch) : Text :=
  "ambiguous option: ".toList ++ t ++ " could match ".toList
    ++ List.intercalate [',', ' '] (switches.map Switch.long)

/-- Classify a dashed word of at least two characters that is no exact name. -/
def classifyDashed (t : Text) : Except Text Word :=
  match candidates t with
  | [(_, w)] => .ok w
  | [] => .ok (if isNegativeNumber t || t.contains ' ' then plain t else unknown t)
  | several => .error (ambiguous t (several.map (·.1)))

/-- Classify a word; the error is the message for an ambiguous one. -/
def classify (t : Text) : Except Text Word :=
  match t with
  | '-' :: _ :: _ =>
    match named? t none with
    | some w => .ok w
    | none =>
      match splitEquals t with
      | (name, some attached) =>
        match named? name (some attached) with
        | some w => .ok w
        | none => classifyDashed t
      | (_, none) => classifyDashed t
  | _ => .ok (plain t)

end Word

def words : List Text → Except Text (List Word)
  | [] => .ok []
  | t :: ts =>
    if t = ['-', '-'] then .ok (.separator :: ts.map .plain)
    else
      match Word.classify t with
      | .error message => .error message
      | .ok w => (words ts).map (w :: ·)

end Reckon.CommandLine
