import Reckon.Text.Quoted

/-!
# Paths

A path is an anchor, which is empty for a relative path, and a list of names.
Reading a path drops empty names and `.`, keeps `..`, and keeps exactly two
leading slashes apart from any other number. The last name decides the format of
a file by its suffixes and the place of its results.
-/

namespace Reckon

/-- A path: its anchor and its names. -/
structure Path where
  anchor : Text
  names : List Text
deriving DecidableEq, Repr

namespace Path

/-- The anchor of a path text, by the number of leading slashes. -/
def anchorOf (t : Text) : Text :=
  match (t.takeWhile (· = '/')).length with
  | 0 => []
  | 2 => ['/', '/']
  | _ => ['/']

def ofText (t : Text) : Path :=
  { anchor := anchorOf t
    names := (List.splitOn '/' t).filter fun name => name ≠ [] ∧ name ≠ ['.'] }

/-- Write a path; the path without anchor and names is `.`. -/
def text (p : Path) : Text :=
  if p.anchor = [] ∧ p.names = [] then ['.'] else p.anchor ++ List.intercalate ['/'] p.names

/-- The last name; empty if the path has none. -/
def name (p : Path) : Text :=
  p.names.getLast?.getD []

def withName (p : Path) (name : Text) : Path :=
  { p with names := p.names.dropLast ++ [name] }

/-- The second path as seen from the first; a path with an anchor stands for itself. -/
def join (p q : Path) : Path :=
  if q.anchor = [] then { p with names := p.names ++ q.names } else q

end Path

namespace FileName

/-- The part of a name from its last dot on. -/
def fromLastDot (name : Text) : Text :=
  '.' :: (name.reverse.takeWhile (· ≠ '.')).reverse

/-- The last suffix of a name: from the last dot on, if that dot is neither the
first nor the last character. -/
def suffix (name : Text) : Text :=
  let s := fromLastDot name
  if '.' ∈ name ∧ s.length < name.length ∧ 1 < s.length then s else []

/-- All suffixes of a name: none if the name ends with a dot, otherwise the
pieces after the first, where leading dots do not count. -/
def suffixes (name : Text) : List Text :=
  if name.getLast? = some '.' then []
  else ((List.splitOn '.' (name.dropWhile (· = '.'))).drop 1).map ('.' :: ·)

/-- The name of the results file for an input file of this name: every dot of
its suffixes becomes an underscore. -/
def results (name : Text) : Text :=
  let tail := (suffixes name).flatten
  name.take (name.length - tail.length) ++ tail.map (fun c => if c = '.' then '_' else c)
    ++ "_results.txt".toList

end FileName

namespace Path

def suffix (p : Path) : Text :=
  FileName.suffix p.name

def suffixes (p : Path) : List Text :=
  FileName.suffixes p.name

/-- The path of the results file beside an input file; there is none for a path
without a name. -/
def results? (p : Path) : Option Path :=
  if p.name = [] then none else some (p.withName (FileName.results p.name))

/-- Why a path has no results path. -/
def emptyNameMessage (p : Path) : Text :=
  "PosixPath(".toList ++ Text.quoted p.text ++ ") has an empty name".toList

end Path

end Reckon
