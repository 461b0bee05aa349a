/-!
# Paths

A path is a text: where it starts, and names with slashes between them. Empty names and single dots
among them lead nowhere, but they stay in the text of the path. `Path.parent?` drops the last name
that leads somewhere, with all that follows it, and `Path.directory` is the place in which the last
name is looked up.
-/

namespace CidrCover

/-- A path in its written form. -/
structure Path where
  /-- A slash for the root, a dot for an explicit start at the working directory, or nothing. -/
  anchor : List Char
  /-- What stands between the slashes after that. -/
  segments : List (List Char)
  deriving DecidableEq, Repr

namespace Path

/-- The path of a text. -/
def ofChars : List Char → Path
  | '/' :: rest => ⟨['/'], rest.splitOn '/'⟩
  | '.' :: '/' :: rest => ⟨['.'], ('/' :: rest).splitOn '/'⟩
  | ['.'] => ⟨['.'], []⟩
  | cs => ⟨[], cs.splitOn '/'⟩

/-- The path of a string. -/
def ofString (s : String) : Path :=
  ofChars s.toList

/-- The text of a path. -/
def chars (p : Path) : List Char :=
  p.anchor ++ ['/'].intercalate p.segments

/-- The string of a path. -/
def text (p : Path) : String :=
  String.ofList p.chars

/-- The path of the working directory. -/
def here : Path := ⟨['.'], []⟩

/-- The path starts at the root. -/
def isAbsolute (p : Path) : Bool :=
  p.anchor == ['/']

/-- The path has no text. -/
def isBlank (p : Path) : Bool :=
  p.chars.isEmpty

/-- The names to follow, one after another; a dot at the start counts. -/
def names (p : Path) : List String :=
  (if p.anchor == ['.'] then ["."] else [])
    ++ (p.segments.filter (!·.isEmpty)).map String.ofList

/-- The path ends with a slash, which asks for a directory. -/
def isClosed (p : Path) : Bool :=
  p.segments.getLast? == some []

/-- A segment that leads nowhere. -/
def isIdle (segment : List Char) : Bool :=
  segment == [] || segment == ['.']

/-- The segments without the idle ones at their end. -/
def trimSegments (segments : List (List Char)) : List (List Char) :=
  (segments.reverse.dropWhile isIdle).reverse

/-- The path without its last name; a lone dot leaves the path without text, and neither that nor
the root has a parent. -/
def parent? (p : Path) : Option Path :=
  match trimSegments p.segments with
  | [] => if p.anchor == ['.'] then some ⟨[], []⟩ else none
  | segments => some ⟨p.anchor, trimSegments segments.dropLast⟩

/-- Where the last name of a path is looked up. -/
def directory (p : Path) : Path :=
  match p.parent? with
  | some d => if d.isBlank then here else d
  | none => here

end Path

end CidrCover
