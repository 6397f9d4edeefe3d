import Reckon.CommandLine.Switch
import Reckon.Record.Value
import Reckon.Text.Numeral

/-!
# Settings of a command line

The words take effect from left to right. The first plain word is the
expression, further ones are left over, and so are unknown switches; what is left
over is reported only when all words have been read. A switch that takes an
argument takes the attached one or else the plain word after it, and the last
use of a switch wins. The separator is absorbed by the expression beside it. Attached
to a switch it is absorbed too, and the switch is left with no argument at all.
-/

namespace Reckon.CommandLine

/-- What a switch has been given: it was not used, it was used with the separator in
place of an argument, or it was used with an argument. -/
inductive Use (α : Type) where
  | unused
  | separator
  | argument (a : α)
deriving DecidableEq, Repr

namespace Use

variable {α : Type}

def argument? : Use α → Option α
  | argument a => some a
  | unused | separator => none

/-- The use as a field value. A switch without its argument is an empty list. -/
def toValue (value : α → Value) : Use α → Value
  | unused => .null
  | separator => .list []
  | argument a => value a

end Use

/-- What the words have said so far. -/
structure Settings where
  expression : Option Text
  file : Use Text
  output : Use Text
  workers : Use Int
  expressionTaken : Bool
  leftOver : List Text
deriving DecidableEq, Repr

/-- Why reading the words stops early: help is asked for, or they are misused. -/
inductive Stop where
  | help
  | usage (message : Text)
deriving DecidableEq, Repr

namespace Stop

def misuse (s : Switch) (message : Text) : Stop :=
  usage ("argument ".toList ++ s.label ++ ": ".toList ++ message)

/-- A switch lacks its argument. -/
def lacksArgument (s : Switch) : Stop :=
  misuse s "expected one argument".toList

/-- A switch that takes no argument has one attached. -/
def ignoredArgument (s : Switch) (attached : Text) : Stop :=
  misuse s ("ignored explicit argument ".toList ++ Text.quoted attached)

end Stop

namespace Settings

def initial : Settings := ⟨none, .unused, .unused, .unused, false, []⟩

def leave (s : Settings) (t : Text) : Settings :=
  { s with leftOver := s.leftOver ++ [t] }

def takeExpression (s : Settings) (t : Text) : Settings :=
  { s with expression := some t, expressionTaken := true }

/-- The number in the argument of the workers switch. -/
def workersOf (argument : Text) : Except Stop Int :=
  match Numeral.read? argument with
  | some n => .ok n
  | none => .error (.misuse .workers ("invalid int value: ".toList ++ Text.quoted argument))

/-- A switch is given with its argument. -/
def set (s : Settings) (switch : Switch) (argument : Text) : Except Stop Settings :=
  match switch with
  | .help => .error .help
  | .file => .ok { s with file := .argument argument }
  | .output => .ok { s with output := .argument argument }
  | .workers => (workersOf argument).map fun n => { s with workers := .argument n }

/-- A switch is given with the separator attached to it. -/
def setSeparator (s : Settings) (switch : Switch) : Except Stop Settings :=
  match switch with
  | .help => .error .help
  | .file => .ok { s with file := .separator }
  | .output => .ok { s with output := .separator }
  | .workers => .ok { s with workers := .separator }

/-- A switch is given with something attached to it. -/
def setAttached (s : Settings) (switch : Switch) (attached : Text) : Except Stop Settings :=
  if attached = ['-', '-'] then s.setSeparator switch else s.set switch attached

/-- The words begin with a plain one. -/
def startsPlain : List Word → Bool
  | .plain _ :: _ => true
  | _ => false

/-- Letters attached to the short name of the help switch are further short
names. Help is given unless one of them is unknown or lacks its argument. -/
def bundled (rest : List Word) : Text → Stop
  | [] => .help
  | c :: t =>
    match Switch.ofLetter? c with
    | none => .ignoredArgument .help (c :: t)
    | some .help => bundled rest t
    | some s => if t ≠ [] ∨ startsPlain rest then .help else .lacksArgument s

/-- What the help switch leads to. -/
def helpStop (attached : Option Text) (isLong : Bool) (rest : List Word) : Stop :=
  match attached with
  | none => .help
  | some t => if isLong ∨ t = [] then .ignoredArgument .help t else bundled rest t

/-- Let the words take effect. -/
def read : List Word → Settings → Except Stop Settings
  | [], s => .ok s
  | .plain t :: .separator :: ws, s =>
    if s.expressionTaken then read ws ((s.leave t).leave ['-', '-'])
    else read ws (s.takeExpression t)
  | .plain t :: ws, s =>
    if s.expressionTaken then read ws (s.leave t) else read ws (s.takeExpression t)
  | .separator :: .plain t :: ws, s =>
    if s.expressionTaken then read ws ((s.leave ['-', '-']).leave t)
    else read ws (s.takeExpression t)
  | .separator :: ws, s =>
    if s.expressionTaken then read ws (s.leave ['-', '-'])
    else read ws { s with expressionTaken := true }
  | .unknown t :: ws, s => read ws (s.leave t)
  | .switch .help attached isLong :: ws, _ => .error (helpStop attached isLong ws)
  | .switch switch (some attached) _ :: ws, s =>
    match s.setAttached switch attached with
    | .ok s => read ws s
    | .error stop => .error stop
  | .switch switch none _ :: .plain argument :: ws, s =>
    match s.set switch argument with
    | .ok s => read ws s
    | .error stop => .error stop
  | .switch switch none _ :: _, _ => .error (.lacksArgument switch)

/-- The settings that a command line makes. -/
def ofWords (arguments : List Text) : Except Stop Settings :=
  match words arguments with
  | .error message => .error (.usage message)
  | .ok ws =>
    match read ws initial with
    | .error stop => .error stop
    | .ok s =>
      if s.leftOver = [] then .ok s
      else .error (.usage ("unrecognized arguments: ".toList ++ List.intercalate [' '] s.leftOver))

def toRecord (s : Settings) : Record :=
  [("expression".toList, (s.expression.map Value.text).getD .null),
   ("file_path".toList, s.file.toValue .text),
   ("output".toList, s.output.toValue .text),
   ("max_workers".toList, s.workers.toValue .integer)]

end Settings

end Reckon.CommandLine
