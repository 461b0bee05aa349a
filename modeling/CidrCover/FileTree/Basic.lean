import CidrCover.Fault
import CidrCover.FileTree.Path
import CidrCover.Text.Basic

/-!
# File trees

A file tree is a finite table from places to regular files and directories, with a working
directory. A place is the list of names that leads to it from the root. Every name before the last
one of a path has to be that of a directory, and so has the last one if a slash follows it.

Only `createDirectory` and `place` change a tree. `createDirectories` makes what is missing of a
directory and of those above it.

An operation is refused for the reasons that `SystemFault` lists and for no others. Left out are
permissions and owners, symbolic and hard links, special files, disks that are full or fail, and
other programs that change the files in the meantime. Names are texts: those of other bytes than
UTF-8 have no place in a tree.
-/

namespace CidrCover

/-- The names from the root to a place. -/
abbrev Place := List String

/-- What may stand at a place. -/
inductive Item where
  | file (bytes : ByteArray)
  | directory

/-- Files and directories, and the directory at which relative paths start. -/
structure FileTree where
  items : List (Place × Item)
  workingDirectory : Place

namespace FileTree

/-- A tree whose only directories are the working directory and the one above it. -/
def empty : FileTree :=
  ⟨[(["tmp"], .directory), (["tmp", "work"], .directory)], ["tmp", "work"]⟩

/-! ### Places -/

/-- What stands at a place. The root is a directory. -/
def item? (t : FileTree) (spot : Place) : Option Item :=
  if spot.isEmpty then some .directory else t.items.lookup spot

/-- Puts an item at a place. -/
def put (t : FileTree) (spot : Place) (i : Item) : FileTree :=
  { t with items := (spot, i) :: t.items.filter (·.1 != spot) }

/-- There is a directory at a place. -/
def isDirectoryAt (t : FileTree) (spot : Place) : Bool :=
  match t.item? spot with
  | some .directory => true
  | _ => false

/-- The regular files with their bytes. -/
def files (t : FileTree) : List (Place × ByteArray) :=
  t.items.filterMap fun
    | (spot, .file bytes) => some (spot, bytes)
    | (_, .directory) => none

/-- The bytes of the regular file at a place. -/
def contents? (t : FileTree) (spot : Place) : Option ByteArray :=
  match t.item? spot with
  | some (.file bytes) => some bytes
  | _ => none

/-- The regular files below the working directory, by their relative paths. -/
def relativeFiles (t : FileTree) : List (String × ByteArray) :=
  t.files.filterMap fun (spot, bytes) =>
    (t.workingDirectory.isPrefixOf? spot).map fun names => ("/".intercalate names, bytes)

/-! ### Following paths -/

/-- The greatest number of bytes of a name. -/
def maxNameBytes : Nat := 255

/-- The greatest number of bytes of a path. -/
def maxPathBytes : Nat := 4095

/-- Names must not be too long. -/
def checkName (name : String) : Except SystemFault Unit :=
  if maxNameBytes < name.utf8ByteSize then .error .nameTooLong else .ok ()

/-- The item at a place has to be a directory. -/
def checkDirectory (t : FileTree) (spot : Place) : Except SystemFault Unit :=
  match t.item? spot with
  | none => .error .notFound
  | some (.file _) => .error .notDirectory
  | some .directory => .ok ()

/-- Goes from a directory to the one of a name. -/
def enter (t : FileTree) (d : Place) (name : String) : Except SystemFault Place :=
  if name == "." then .ok d
  else if name == ".." then .ok d.dropLast
  else do
    checkName name
    t.checkDirectory (d ++ [name])
    return d ++ [name]

/-- Where a path ends: at a directory that it names by dots or as the root, or at a name in a
directory, with or without a slash after it. -/
inductive Target where
  | directory (spot : Place)
  | name (spot : Place) (closed : Bool)

/-- Follows a path up to its last name. -/
def target (t : FileTree) (p : Path) : Except SystemFault Target := do
  if p.chars.contains '\x00' then throw .nulInName
  if p.isBlank then throw .notFound
  if maxPathBytes < p.text.utf8ByteSize then throw .nameTooLong
  let start := if p.isAbsolute then [] else t.workingDirectory
  match p.names.reverse with
  | [] => return .directory start
  | last :: before =>
    let d ← before.reverse.foldlM t.enter start
    if last == "." || last == ".." then return .directory (← t.enter d last)
    checkName last
    return .name (d ++ [last]) p.isClosed

/-- What a path leads to. -/
def find (t : FileTree) (p : Path) : Except SystemFault Item := do
  match ← t.target p with
  | .directory _ => return .directory
  | .name spot closed =>
    match t.item? spot with
    | none => throw .notFound
    | some (.file bytes) => if closed then throw .notDirectory else return .file bytes
    | some .directory => return .directory

/-- The path leads to something. -/
def exists? (t : FileTree) (p : Path) : Bool :=
  match t.find p with
  | .ok _ => true
  | .error _ => false

/-- The path leads to a directory. -/
def isDirectory (t : FileTree) (p : Path) : Bool :=
  match t.find p with
  | .ok .directory => true
  | _ => false

/-- The bytes of the file that a path leads to. -/
def read (t : FileTree) (p : Path) : Except SystemFault ByteArray := do
  match ← t.find p with
  | .file bytes => return bytes
  | .directory => throw .isDirectory

/-! ### Changing trees -/

/-- Makes a directory. -/
def createDirectory (t : FileTree) (p : Path) : Except SystemFault FileTree := do
  match ← t.target p with
  | .directory _ => throw .alreadyThere
  | .name spot _ =>
    if (t.item? spot).isSome then throw .alreadyThere
    return t.put spot .directory

/-- Makes a directory unless there is one. -/
def ensureDirectory (t : FileTree) (p : Path) : FileTree × Except SystemFault Unit :=
  match t.createDirectory p with
  | .ok t => (t, .ok ())
  | .error e => (t, if t.isDirectory p then .ok () else .error e)

/-- Makes a directory and what is missing of at most `depth` directories above it. -/
def createDirectoriesWith : Nat → FileTree → Path → FileTree × Except SystemFault Unit
  | 0, t, p => t.ensureDirectory p
  | depth + 1, t, p =>
    if p.isBlank then (t, .ok ())
    else
      match t.ensureDirectory p, p.parent? with
      | (t, .error .notFound), some d =>
        match createDirectoriesWith depth t d with
        | (t, .ok ()) => t.ensureDirectory p
        | failed => failed
      | result, _ => result

/-- Makes a directory and what is missing above it. -/
def createDirectories (t : FileTree) (p : Path) : FileTree × Except SystemFault Unit :=
  createDirectoriesWith (p.segments.length + 1) t p

/-- Puts a regular file where a path leads, in place of the one that may be there. -/
def place (t : FileTree) (p : Path) (bytes : ByteArray) : Except SystemFault FileTree := do
  match ← t.target p with
  | .directory _ => throw .busy
  | .name spot closed =>
    if closed then throw .notDirectory
    if t.isDirectoryAt spot then throw .isDirectory
    return t.put spot (.file bytes)

end FileTree

end CidrCover
