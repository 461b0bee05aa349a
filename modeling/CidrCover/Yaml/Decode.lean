import CidrCover.Yaml.Node
import CidrCover.Yaml.Plain

/-!
# Values of nodes

Reading texts, numbers, truth values, sequences and mappings from nodes. An alias is looked up
where a value is wanted; the number of times that this may happen in a document is limited by its
size. Numbers and truth values must not be quoted.
-/

namespace CidrCover.Yaml

/-- Reading values of a document, with the number of aliases that may still be looked up. -/
abbrev Decoder := ReaderT (List (Nat × Node)) (StateT Nat (Except Fault))

/-- Reads a value from a document. -/
def Decoder.run {α : Type} (d : Decoder α) (doc : Document) : Except Fault α :=
  (d doc.anchors (doc.size * 100)).map Prod.fst

/-- The node, or the one that it stands for. -/
def follow (n : Node) : Decoder Node := do
  match n.bare with
  | .alias id =>
    match ← get with
    | 0 => throw .repetition
    | left + 1 =>
      set left
      match (← read).lookup id with
      | some target => return target.bare
      | none => throw .unknownAnchor
  | other => return other

/-- The text of a node. -/
def asText (n : Node) : Decoder String := do
  match ← follow n with
  | .text _ _ content => return String.ofList content
  | _ => throw (.type "a string")

/-- The text of a node that may stand for something else than itself: it is not quoted, or it is a
literal block with the tag of what it stands for. -/
def asUnquoted (kind : String) : Node → Option (List Char)
  | .text .plain _ content => some content
  | .text .literal tag content =>
    if tag == some (coreLead ++ asciiBytes kind.toList) then some content else none
  | _ => none

/-- The number below `2 ^ 64` of a node. -/
def asNat (n : Node) : Decoder Nat := do
  match asUnquoted "int" (← follow n) >>= unsigned? 64 with
  | some k => return k
  | none => throw (.type "usize")

/-- The truth value of a node. -/
def asBool (n : Node) : Decoder Bool := do
  match asUnquoted "bool" (← follow n) >>= boolean? with
  | some b => return b
  | none => throw (.type "a boolean")

/-- The items of a sequence; an empty unquoted text is a sequence without items. -/
def asSequence (n : Node) : Decoder (List Node) := do
  match ← follow n with
  | .sequence items => return items
  | .text .plain _ [] => return []
  | _ => throw (.type "a sequence")

/-- The entries of a mapping; an empty unquoted text is a mapping without entries. -/
def asMapping (n : Node) : Decoder (List (Node × Node)) := do
  match ← follow n with
  | .mapping entries => return entries
  | .text .plain _ [] => return []
  | _ => throw (.type "a mapping")

end CidrCover.Yaml
