import Reckon.Host
import Reckon.Text.Decimal

/-!
# Files

Files are found under locations: the names on the way from the working
directory. A path is walked name by name; every name but the last has to be a
directory, and `..` leads back. The parents of the working directory, and the
root, are directories of which nothing else is known. A file holds bytes.

An access can be barred at a location: to search a directory for a name, to read a file,
or to write one, which stands for creating it as well.

A directory can be made for a time: files are laid below it, and in the end it is
removed with everything in it.

There are no links. Once a file has been opened it can be read, or written, to its end, and
a directory that has been made can be removed.
-/

namespace Reckon

/-- The names on the way from the working directory. -/
abbrev Location := List Text

/-- What stands at a location. -/
inductive Entry where
  | directory
  | file (content : Bytes)
deriving DecidableEq, Repr

inductive Access where
  | search
  | read
  | write
deriving DecidableEq, Repr

/-- The files and directories in reach, and what is barred. -/
structure Files where
  entries : List (Location × Entry)
  barred : List (Access × Location) := []
deriving DecidableEq, Repr

/-- Why a path leads nowhere, or not to what is asked for. -/
inductive PathFault where
  | notFound
  | denied
  | occupied
  | notDirectory
  | isDirectory
  | nameTooLong
  | hasNull
deriving DecidableEq, Repr

namespace PathFault

/-- The number of a fault of the file system, and its words. -/
def description? : PathFault → Option (Nat × Text)
  | notFound => some (2, "No such file or directory".toList)
  | denied => some (13, "Permission denied".toList)
  | occupied => some (17, "File exists".toList)
  | notDirectory => some (20, "Not a directory".toList)
  | isDirectory => some (21, "Is a directory".toList)
  | nameTooLong => some (36, "File name too long".toList)
  | hasNull => none

def message (f : PathFault) (p : Path) : Text :=
  match f.description? with
  | some (number, words) =>
    "[Errno ".toList ++ Decimal.ofNat number ++ "] ".toList ++ words ++ ": ".toList
      ++ Text.quoted p.text
  | none => "embedded null byte".toList

end PathFault

namespace Files

/-- The most bytes a name may have. -/
def nameLimit : Nat := 255

/-- The most bytes a path may have. -/
def pathLimit : Nat := 4095

def root : Location := [['/']]

/-- The name that leads to the parent. -/
def parentName : Text := ['.', '.']

/-- A directory that is there in any case: the working directory, its parents,
and the root. -/
def isGiven (l : Location) : Bool :=
  l.all (· = parentName) || l = root

/-- What stands at a location. A directory need not be listed if something in it
is. -/
def entry? (fs : Files) (l : Location) : Option Entry :=
  if isGiven l then some .directory
  else match fs.entries.lookup l with
    | some e => some e
    | none => if fs.entries.any fun e => l.isPrefixOf e.1 then some .directory else none

def parent (l : Location) : Location :=
  if l = root then root
  else if l.all (· = parentName) then l ++ [parentName]
  else l.dropLast

def permits (fs : Files) (a : Access) (l : Location) : Bool :=
  !fs.barred.contains (a, l)

/-- Where a name leads from a location. -/
def next (l : Location) (name : Text) : Location :=
  if name = parentName then parent l else l ++ [name]

/-- Where the names of a path are followed from. -/
def start (p : Path) : Location :=
  if p.anchor = [] then [] else root

/-- Follow names from a location. The last name may be new. -/
def walk (fs : Files) (l : Location) : List Text → Except PathFault Location
  | [] => .ok l
  | name :: rest =>
    match fs.entry? l with
    | none => .error .notFound
    | some (.file _) => .error .notDirectory
    | some .directory =>
      if fs.permits .search l = false then .error .denied
      else if nameLimit < (Utf8.encode name).length then .error .nameTooLong
      else walk fs (next l name) rest

def locate (fs : Files) (p : Path) : Except PathFault Location :=
  if '\x00' ∈ p.text then .error .hasNull
  else if pathLimit < (Utf8.encode p.text).length then .error .nameTooLong
  else walk fs (start p) p.names

def find (fs : Files) (p : Path) : Except PathFault Entry :=
  match fs.locate p with
  | .error f => .error f
  | .ok l =>
    match fs.entry? l with
    | some e => .ok e
    | none => .error .notFound

def isFile (fs : Files) (p : Path) : Bool :=
  match fs.find p with
  | .ok (.file _) => true
  | _ => false

/-- The fault that keeps from telling whether a path leads to a file: a name on it,
or the whole path, is too long, or a directory on it is not to be searched. A path that
leads nowhere leads to no file. -/
def obstacle? (fs : Files) (p : Path) : Option PathFault :=
  match fs.find p with
  | .error .nameTooLong => some .nameTooLong
  | .error .denied => some .denied
  | _ => none

/-- The content of the file a path leads to. -/
def read (fs : Files) (p : Path) : Except PathFault Bytes :=
  match fs.locate p with
  | .error f => .error f
  | .ok l =>
    match fs.entry? l with
    | none => .error .notFound
    | some .directory => .error .isDirectory
    | some (.file b) => if fs.permits .read l then .ok b else .error .denied

/-- The location of a file that can be written at a path: an existing file, or a
new name in a directory. -/
def target (fs : Files) (p : Path) : Except PathFault Location :=
  match fs.locate p with
  | .error f => .error f
  | .ok l =>
    match fs.entry? l with
    | some .directory => .error .isDirectory
    | some (.file _) => if fs.permits .write l then .ok l else .error .denied
    | none =>
      if fs.entry? l.dropLast = some .directory then
        if fs.permits .write l then .ok l else .error .denied
      else .error .notFound

def nothing : Files := ⟨[], []⟩

/-- Put an entry at a location, in place of the one that may be there. -/
def insert (fs : Files) (l : Location) (e : Entry) : Files :=
  { fs with entries := fs.entries.filter (·.1 ≠ l) ++ [(l, e)] }

/-- Put a file with these bytes at a location. -/
def put (fs : Files) (l : Location) (b : Bytes) : Files :=
  fs.insert l (.file b)

/-- Make a directory at a path where nothing is yet. -/
def makeDirectory (fs : Files) (p : Path) : Except PathFault (Location × Files) :=
  match fs.locate p with
  | .error f => .error f
  | .ok l =>
    if fs.entry? l ≠ none then .error .occupied
    else if fs.entry? l.dropLast = some .directory then
      if fs.permits .write l then .ok (l, fs.insert l .directory) else .error .denied
    else .error .notFound

/-- Lay the unpacked files below a directory, one after the other. -/
def lay (fs : Files) (l : Location) (unpacked : List Archive.Unpacked) : Files :=
  unpacked.foldl (fun fs f => fs.put (l ++ f.names) f.content) fs

/-- Remove a directory with everything in it. -/
def removeTree (fs : Files) (l : Location) : Files :=
  { fs with entries := fs.entries.filter fun e => !l.isPrefixOf e.1 }

/-- The text of a location, as a path from the working directory. -/
def locationText (l : Location) : Text :=
  List.intercalate ['/'] l

def isInside (l : Location) : Bool :=
  match l with
  | [] => false
  | name :: _ => name ≠ parentName && [name] ≠ root

/-- The files of `after` in the working directory that were not there before, with
their bytes. -/
def newIn (before after : Files) : List (Location × Bytes) :=
  after.entries.filterMap fun e =>
    match e.2, before.entry? e.1 with
    | .file b, none => if isInside e.1 then some (e.1, b) else none
    | _, _ => none

end Files

end Reckon
