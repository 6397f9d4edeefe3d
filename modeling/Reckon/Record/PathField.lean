import Reckon.Files
import Reckon.Record.Field

/-!
# Path fields

A field may hold a path; some fields ask for a path that leads to a file. If that
cannot be told, the record is refused for it, whatever else is wrong with it.
-/

namespace Reckon

/-- Why a record with the path of a file is refused. -/
inductive Refusal where
  | faults (found : List Fault)
  | obstructed (fault : PathFault) (path : Path)
deriving DecidableEq, Repr

namespace Record

namespace Reader

def path : Reader Path
  | .text t => .ok (Path.ofText t)
  | _ => Checked.fault .notPath

/-- A path that leads to a file. -/
def filePath (fs : Files) : Reader Path := fun v =>
  match path v with
  | .ok p => if fs.isFile p then .ok p else Checked.fault .noSuchFile
  | .error faults => .error faults

end Reader

/-- The path in a field, with the fault that keeps from telling whether it leads to
a file. -/
def obstacle? (r : Record) (fs : Files) (name : Text) : Option (PathFault × Path) :=
  match r.get? name with
  | some (.text t) => (fs.obstacle? (Path.ofText t)).map fun fault => (fault, Path.ofText t)
  | _ => none

/-- What checking a record has found, unless the path in a field is obstructed. -/
def unobstructed {α : Type} (r : Record) (fs : Files) (name : Text) (found : Checked α) :
    Except Refusal α :=
  match r.obstacle? fs name with
  | some (fault, p) => .error (.obstructed fault p)
  | none => found.mapError .faults

end Record

end Reckon
