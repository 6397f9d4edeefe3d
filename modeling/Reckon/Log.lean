import Reckon.Text.Basic

/-!
# Log

A log entry has a level and a message. A logger drops the entries below its
level. Its level is given by name, in any case; a name that is none of the
levels, or no name at all, means `info`. The level `notset` defers to the parent
of the logger, which passes warnings and above.
-/

namespace Reckon.Log

/-- The levels, from the least severe on. -/
inductive Level where
  | notset
  | debug
  | info
  | warning
  | error
  | critical
deriving DecidableEq, Repr

namespace Level

def severity : Level → Nat
  | notset => 0
  | debug => 10
  | info => 20
  | warning => 30
  | error => 40
  | critical => 50

def name : Level → Text
  | notset => "NOTSET".toList
  | debug => "DEBUG".toList
  | info => "INFO".toList
  | warning => "WARNING".toList
  | error => "ERROR".toList
  | critical => "CRITICAL".toList

/-- Every name under which a level can be asked for. -/
def names : List (Text × Level) :=
  [("NOTSET".toList, notset), ("DEBUG".toList, debug), ("INFO".toList, info),
   ("WARNING".toList, warning), ("WARN".toList, warning), ("ERROR".toList, error),
   ("CRITICAL".toList, critical), ("FATAL".toList, critical)]

/-- The upper case of a code point, exact wherever it consists of ASCII letters.
Beside the ASCII letters that is so for the sharp s, the dotless i, the long s
and the ligatures of f and s; all other code points stay as they are, and no
level's name holds one. -/
def capital (c : Char) : Text :=
  match c with
  | 'ß' => ['S', 'S']
  | 'ı' => ['I']
  | 'ſ' => ['S']
  | 'ﬀ' => ['F', 'F']
  | 'ﬁ' => ['F', 'I']
  | 'ﬂ' => ['F', 'L']
  | 'ﬃ' => ['F', 'F', 'I']
  | 'ﬄ' => ['F', 'F', 'L']
  | 'ﬅ' => ['S', 'T']
  | 'ﬆ' => ['S', 'T']
  | c => [c.toUpper]

/-- The level asked for by a setting. -/
def ofSetting : Option Text → Level
  | none => info
  | some t => (names.lookup (t.flatMap capital)).getD info

/-- The level from which on a logger with this level passes entries. -/
def effective : Level → Level
  | notset => warning
  | level => level

end Level

structure Entry where
  level : Level
  message : Text
deriving DecidableEq, Repr

/-- The entries that a logger of the given level passes. -/
def passed (level : Level) (entries : List Entry) : List Entry :=
  entries.filter fun e => level.effective.severity ≤ e.level.severity

/-- A logger: its level, and how many handlers write its entries. -/
structure Logger where
  level : Level
  handlers : Nat
deriving DecidableEq, Repr

/-- A logger before anyone asked for it. -/
def Logger.fresh : Logger := ⟨.notset, 0⟩

/-- Ask for a logger under a setting: the level follows the setting, and a
handler is attached only if there is none yet. -/
def Logger.configure (logger : Logger) (setting : Option Text) : Logger :=
  { level := Level.ofSetting setting
    handlers := if logger.handlers = 0 then 1 else logger.handlers }

end Reckon.Log
