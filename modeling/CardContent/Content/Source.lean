import CardContent.Content.Event
import CardContent.Text.Lines

/-!
# Where content is read from

Content lies in named resources. A source reads a resource as the lines of a text or as a table;
the decoder knows a source by nothing else. There are two: texts kept in memory, and a folder of
files. A file may be missing, may refuse to be opened or to be read, and need not be text. A folder
logs what it reads.
-/

set_option autoImplicit false

namespace CardContent

/-- Reading of named resources (`ContentSource`). -/
structure Source where
  /-- The lines of a text (`read_lines`). -/
  lines : String → Logged (List String)
  /-- The rows of a table (`read_rows`). -/
  rows : String → Logged (List Csv.Row)

/-- The resources that content is made of. -/
inductive Resource where
  | effects
  | cards (kind : Kind)
  | counts
  deriving DecidableEq, Repr

/-- The name of a resource. -/
def Resource.name : Resource → String
  | .effects => "effects.txt"
  | .cards .acquirable => "acquirable.csv"
  | .cards .defeatable => "defeatable.csv"
  | .counts => "counts.txt"

/-- The path of a name below a folder; a name that is itself an absolute path stands alone. -/
def pathIn (folder name : String) : String :=
  if name.toList.head? = some '/' || folder.isEmpty then name
  else if folder.toList.getLast? = some '/' then folder ++ name
  else folder ++ "/" ++ name

/-- Why a file gives no bytes. -/
inductive FileFault where
  /-- There is no file at the path. -/
  | absent
  /-- The file cannot be opened. -/
  | closed (reason : String)
  /-- The file can be opened, but its bytes cannot be read. -/
  | broken (reason : String)
  deriving DecidableEq, Repr

namespace Source

/-- Texts kept in memory, `textOf` giving the text of a name (`MemorySource`). -/
def memory (textOf : String → Option String) : Source where
  lines name :=
    match textOf name with
    | none => .error (.missing name)
    | some text => .ok (Text.lines text)
  rows name :=
    match textOf name with
    | none => .error (.missing name)
    | some text => .ok (Csv.ofText text)

theorem outcome_lines_memory {textOf : String → Option String} {name text : String}
    (h : textOf name = some text) :
    ((memory textOf).lines name).outcome = .ok (Text.lines text) := by
  simp only [memory, h]
  rfl

theorem outcome_rows_memory {textOf : String → Option String} {name text : String}
    (h : textOf name = some text) :
    ((memory textOf).rows name).outcome = .ok (Csv.ofText text) := by
  simp only [memory, h]
  rfl

/-- The files below a folder, `fileAt` giving the bytes of the file at a path (`DirSource`). The
file is opened before anything is read of it, and is logged once all of it has been read. -/
def folder (root : String) (fileAt : String → Except FileFault ByteArray) : Source where
  lines name :=
    let path := pathIn root name
    match fileAt path with
    | .error .absent => .error (.missing path)
    | .error (.closed reason) | .error (.broken reason) => .error (.file reason)
    | .ok bytes =>
      match Utf8.text? bytes with
      | none => .error .notText
      | some text => do
        Logged.log [.linesRead (Text.rawLines text).length path]
        return Text.lines text
  rows name :=
    let path := pathIn root name
    match fileAt path with
    | .error .absent => .error (.missing path)
    | .error (.closed reason) => .error (.file reason)
    | .error (.broken reason) => .error (.tableFile reason)
    | .ok bytes =>
      match Csv.ofBytes bytes.data.toList with
      | .error fault => .error (.table fault)
      | .ok rows => do
        Logged.log [.rowsRead rows.length path]
        return rows

theorem outcome_lines_folder {root name text : String}
    {fileAt : String → Except FileFault ByteArray} {bytes : ByteArray}
    (hbytes : fileAt (pathIn root name) = .ok bytes) (htext : Utf8.text? bytes = some text) :
    ((folder root fileAt).lines name).outcome = .ok (Text.lines text) := by
  simp only [folder, hbytes, htext]
  rfl

end Source

end CardContent
