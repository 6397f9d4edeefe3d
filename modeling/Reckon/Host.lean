import Reckon.Archive

/-!
# The host

What the program finds around it when it is run, beside the files: how many processors
there are, the archive libraries, a path for the directory that archives are unpacked
into, and two streams, of which either may refuse a text.
-/

namespace Reckon

/-- The streams that texts are printed to. -/
inductive Stream where
  | out
  | err
deriving DecidableEq, Repr

structure Host where
  processors : Nat
  library : Archive.Library
  /-- A directory is made here for what is unpacked, and is removed again. -/
  scratch : Path
  /-- The exception that a stream raises on a text it does not take. -/
  refusal? : Stream → Text → Option Trouble

/-- A host with libraries that open nothing and streams that take everything. -/
def Host.plain (processors : Nat) (scratch : Path) : Host :=
  { processors, library := .closed, scratch, refusal? := fun _ _ => none }

end Reckon
