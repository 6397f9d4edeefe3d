import Reckon.Path
import Reckon.Text.Utf8

/-!
# Archives

Taking archives apart is left to three libraries, one for each format. All that is asked
of them stands here: a library opens the bytes of a file as an archive, lists what is in
it, and unpacks what is asked for by name, below a directory that it is given. It may also
raise an exception instead, when it opens the archive or when it unpacks, and with any
bytes; then it matters whether the exception is of a kind that the program expects.

The text of an archive is looked for by name. A tar archive is asked for its files, and a
zip or a 7z archive for all names that it lists; the first name that ends with `.txt` is
taken.
-/

namespace Reckon

/-- An exception that is raised outside the program: its class, whether that is a kind of
value error or of operating system error, and its message. -/
structure Trouble where
  kind : Text
  isExpected : Bool
  message : Text
deriving DecidableEq, Repr

namespace Archive

inductive Format where
  | zip
  | tarXz
  | sevenZip
deriving DecidableEq, Repr

/-- The suffix that tells the format of a file. -/
def Format.suffix : Format → Text
  | zip => ".zip".toList
  | tarXz => ".tar.xz".toList
  | sevenZip => ".7z".toList

/-- What an archive lists: a name, and whether a regular file is behind it. -/
structure Listed where
  name : Text
  isFile : Bool
deriving DecidableEq, Repr

/-- A file that has been unpacked, by the names that lead to it from the directory that
the library was given. No library unpacks anything beside or above that directory. -/
structure Unpacked where
  names : List Text
  content : Bytes
  isInside : names ≠ [] ∧ ['.', '.'] ∉ names
deriving DecidableEq

/-- An archive that has been opened. -/
structure Opened where
  listing : List Listed
  unpack : Text → Except Trouble (List Unpacked)

/-- What the libraries make of bytes that are to be opened as an archive. -/
abbrev Library := Format → Bytes → Except Trouble Opened

/-- The names among which the text is looked for. -/
def Opened.names (archive : Opened) : Format → List Text
  | .tarXz => (archive.listing.filter Listed.isFile).map Listed.name
  | .zip | .sevenZip => archive.listing.map Listed.name

def firstText? (names : List Text) : Option Text :=
  names.find? (".txt".toList.isSuffixOf ·)

/-- The exception about bytes that are no archive of the format. -/
def notArchive : Format → Trouble
  | .zip => ⟨"BadZipFile".toList, false, "File is not a zip file".toList⟩
  | .sevenZip => ⟨"Bad7zFile".toList, false, "not a 7z file".toList⟩
  | .tarXz => ⟨"ReadError".toList, false, "not an lzma file".toList⟩

/-- Libraries that take nothing for an archive. -/
def Library.closed : Library := fun format _ => .error (notArchive format)

end Archive

end Reckon
