import CidrCover.Fault
import CidrCover.FileTree.Basic

/-!
# Replacing files

`replaceFile` gives a file its contents in one step: the directory is made if it is missing, the
new file is written beside the old one, and then it takes its place. Whatever fails on the way,
the regular files stay as they were.
-/

namespace CidrCover.FileTree

/-- The name of the file that is written first. Any name of this length would do. -/
def scratchName : String := ".tmp000000"

/-- Where the file that takes its place in a directory is written first, from the root. -/
def scratchPath (t : FileTree) (d : Path) : Path :=
  let names := if d.isAbsolute then [d.text] else "" :: t.workingDirectory ++ [d.text]
  Path.ofString ("/".intercalate (names ++ [scratchName]))

/-- Writes a file as a whole. -/
def replaceFile (t : FileTree) (path content : String) : FileTree × Except Failure Unit :=
  let p := Path.ofString path
  let d := p.directory
  match t.createDirectories d with
  | (t, .error e) => (t, .error ⟨[.createDirectory d.text], .system e⟩)
  | (t, .ok ()) =>
    match t.target (t.scratchPath d) with
    | .error e => (t, .error ⟨[.createTemporary d.text], .system e⟩)
    | .ok _ =>
      match t.place p (Text.encodeUtf8 content) with
      | .ok t => (t, .ok ())
      | .error e => (t, .error ⟨[.replaceFile path], .replacement e⟩)

/-- The text of a file. -/
def readText (t : FileTree) (path : String) : Except Fault String :=
  match t.read (Path.ofString path) with
  | .error e => .error (.system e)
  | .ok bytes =>
    match Text.decodeUtf8? bytes with
    | none => .error .notUtf8
    | some s => .ok s

/-- Writes a file with any bytes, and makes the directories that are missing. -/
def writeFile (t : FileTree) (path : String) (bytes : ByteArray) :
    FileTree × Except SystemFault Unit :=
  let p := Path.ofString path
  match t.createDirectories p.directory with
  | (t, .error e) => (t, .error e)
  | (t, .ok ()) =>
    match t.place p bytes with
    | .ok t => (t, .ok ())
    | .error e => (t, .error e)

end CidrCover.FileTree
