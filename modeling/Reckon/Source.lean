import Reckon.Record.PathField
import Reckon.Text.Lines

/-!
# Sources of expressions

A batch takes its expressions from a text file or from an archive, one on a
line. The name of the file alone decides how it is read: a name with the suffix
`.txt` is a text file, and any other name has to tell an archive format.

The text of an archive is unpacked into a directory of its own, and then read under its
name as seen from there. The directory is made for that and removed again, whatever
comes in between.
-/

namespace Reckon.Source

/-- Why a file yields no text. -/
inductive Fault where
  | unsupported (suffixes : Text)
  | noText (format : Archive.Format)
  | library (trouble : Trouble)
  | malformed (fault : Utf8.Fault)
  | unreadable (fault : PathFault) (path : Path)
deriving DecidableEq, Repr

/-- The archive format that a path tells. -/
def format? (p : Path) : Option Archive.Format :=
  if p.suffixes.drop (p.suffixes.length - 2) = [".tar".toList, ".xz".toList] then some .tarXz
  else if p.suffix = ".zip".toList then some .zip
  else if p.suffix = ".7z".toList then some .sevenZip
  else none

/-- The archive format of a path that has to tell one. -/
def format (p : Path) : Except Fault Archive.Format :=
  match format? p with
  | some f => .ok f
  | none => .error (.unsupported p.suffixes.flatten)

def contentAt (fs : Files) (p : Path) : Except Fault Bytes :=
  match fs.read p with
  | .ok b => .ok b
  | .error f => .error (.unreadable f p)

/-- Open a file as an archive. -/
def opened (host : Host) (fs : Files) (p : Path) (format : Archive.Format) :
    Except Fault Archive.Opened := do
  let b ← contentAt fs p
  (host.library format b).mapError .library

/-- Unpack the text of an archive. -/
def unpacked (archive : Archive.Opened) (format : Archive.Format) :
    Except Fault (Text × List Archive.Unpacked) :=
  match Archive.firstText? (archive.names format) with
  | none => .error (.noText format)
  | some name =>
    match archive.unpack name with
    | .ok files => .ok (name, files)
    | .error t => .error (.library t)

/-- Unpack the text of an archive into the directory that has been made for it, and read
it there. -/
def takeText (host : Host) (fs : Files) (l : Location) (p : Path) (format : Archive.Format) :
    Files × Except Fault Bytes :=
  match opened host fs p format with
  | .error f => (fs, .error f)
  | .ok archive =>
    match unpacked archive format with
    | .error f => (fs, .error f)
    | .ok (name, files) =>
      let fs := fs.lay l files
      (fs, contentAt fs (host.scratch.join (Path.ofText name)))

/-- The files after the text of an archive has been read, and its bytes. -/
def archiveBytes (host : Host) (fs : Files) (p : Path) (format : Archive.Format) :
    Files × Except Fault Bytes :=
  match fs.makeDirectory host.scratch with
  | .error f => (fs, .error (.unreadable f host.scratch))
  | .ok (l, made) =>
    let (after, found) := takeText host made l p format
    (after.removeTree l, found)

/-- The files after a source has been read, and its bytes. -/
def load (host : Host) (fs : Files) (p : Path) : Files × Except Fault Bytes :=
  if p.suffix = ".txt".toList then (fs, contentAt fs p)
  else
    match format p with
    | .error f => (fs, .error f)
    | .ok format => archiveBytes host fs p format

def bytes (host : Host) (fs : Files) (p : Path) : Except Fault Bytes :=
  (load host fs p).2

/-- The text of bytes, with all line ends as line feeds. -/
def decoded (b : Bytes) : Except Fault Text :=
  match Utf8.decode b with
  | .ok t => .ok (Text.withLineFeeds t)
  | .error f => .error (.malformed f)

def text (host : Host) (fs : Files) (p : Path) : Except Fault Text := do
  decoded (← bytes host fs p)

/-- The expressions that a path leads to, in order. -/
def expressions (host : Host) (fs : Files) (p : Path) : Except Fault (List Text) :=
  (text host fs p).map Text.contentLines

/-- Read the path of a source from a record; it has to lead to a file. -/
def ofRecord (fs : Files) (r : Record) : Except Refusal Path :=
  r.unobstructed fs "path".toList (r.required "path".toList (Record.Reader.filePath fs))

def hexByte (b : UInt8) : Text :=
  "0x".toList ++ Text.hexDigits 2 b.toNat

def reasonWords : Utf8.Reason → Text
  | .invalidStart => "invalid start byte".toList
  | .invalidContinuation => "invalid continuation byte".toList
  | .truncated => "unexpected end of data".toList

/-- The bytes at fault and where they are, in words. -/
def span (f : Utf8.Fault) : Text :=
  match f.bytes with
  | [b] => "byte ".toList ++ hexByte b ++ " in position ".toList ++ Decimal.ofNat f.position
  | bs => "bytes in position ".toList ++ Decimal.ofNat f.position ++ "-".toList
    ++ Decimal.ofNat (f.position + bs.length - 1)

def Fault.message : Fault → Text
  | unsupported suffixes => "📄❌ Unsupported archive format: ".toList ++ suffixes
  | noText format => "📄❌ No .txt file found in ".toList ++ format.suffix ++ " archive".toList
  | library t => t.message
  | malformed f =>
    "'utf-8' codec can't decode ".toList ++ span f ++ ": ".toList ++ reasonWords f.reason
  | unreadable f p => f.message p

end Reckon.Source
