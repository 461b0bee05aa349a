import CidrCover.Yaml.Fault
import CidrCover.Yaml.Token.Scan

/-!
# Nodes and documents

A document is a tree of nodes: texts, sequences and mappings. A node may carry an anchor, and an
alias stands for an anchored node; aliases are kept as such and looked up when the document is
used, so a small document cannot become a huge tree. `Document.parse?` reads a text that holds at
most one document.
-/

namespace CidrCover.Yaml

/-- A node of a document. Anchors are numbered. -/
inductive Node where
  | text (style : Style) (tag : Option (List UInt8)) (content : List Char)
  | sequence (items : List Node)
  | mapping (entries : List (Node × Node))
  | alias (id : Nat)
  | anchored (id : Nat) (node : Node)
  deriving Inhabited

/-- The node without its anchor. -/
def Node.bare : Node → Node
  | .anchored _ n => n.bare
  | n => n

/-- An unquoted text without characters. -/
def Node.blank (tag : Option (List UInt8)) : Node := .text .plain tag []

/-- A document, or none if the text holds no document. -/
structure Document where
  root : Option Node
  /-- The anchored nodes. -/
  anchors : List (Nat × Node)
  /-- A measure of the document: one for a text or an alias, two for a collection. -/
  size : Nat

/-! ### Reading nodes from tokens -/

/-- The state of a reader of nodes. -/
structure Reading where
  /-- The tokens that are left. -/
  tokens : List Token
  /-- What the handles of tags stand for. -/
  handles : List (List Char × List UInt8)
  /-- The numbers of the anchors by their names. -/
  names : List (List Char × Nat)
  anchors : List (Nat × Node)
  size : Nat

/-- Reading with a state, unless there is a fault. -/
abbrev Reader := StateT Reading (Except Fault)

/-- The next token. -/
def peekToken : Reader (Option Token) := do
  return (← get).tokens.head?

/-- Passes a token. -/
def skipToken : Reader Unit :=
  modify fun r => { r with tokens := r.tokens.tail }

/-- Adds to the measure of the document. -/
def addSize (n : Nat) : Reader Unit :=
  modify fun r => { r with size := r.size + n }

/-- Begins an anchored node and gives its number: the number of names so far. An earlier node of
that number is forgotten. -/
def beginAnchor (name : List Char) : Reader Nat := do
  let r ← get
  let id := r.names.length
  set { r with
    names := (name, id) :: r.names.filter (·.1 != name)
    anchors := r.anchors.filter (·.1 != id) }
  return id

/-- Ends an anchored node, whose number stays with a node inside of it that took it. -/
def endAnchor (id : Nat) (n : Node) : Reader Unit :=
  modify fun r =>
    if (r.anchors.lookup id).isSome then r else { r with anchors := (id, n) :: r.anchors }

/-- The properties of a node: an anchor and a tag, in any order. -/
structure Properties where
  anchor : Option (List Char)
  tag : Option (List Char × List UInt8)

/-- The properties that the tokens begin with. -/
def readProperties : Reader Properties := do
  match (← get).tokens with
  | .anchor a :: .tag h s :: rest =>
    modify fun r => { r with tokens := rest }
    return ⟨some a, some (h, s)⟩
  | .tag h s :: .anchor a :: rest =>
    modify fun r => { r with tokens := rest }
    return ⟨some a, some (h, s)⟩
  | .anchor a :: rest =>
    modify fun r => { r with tokens := rest }
    return ⟨some a, none⟩
  | .tag h s :: rest =>
    modify fun r => { r with tokens := rest }
    return ⟨none, some (h, s)⟩
  | _ => return ⟨none, none⟩

/-- The full tag of a handle and a suffix. -/
def resolveTag : Option (List Char × List UInt8) → Reader (Option (List UInt8))
  | none => return none
  | some ([], suffix) => return some suffix
  | some (handle, suffix) => do
    match (← get).handles.lookup handle with
    | some lead => return some (lead ++ suffix)
    | none => throw .tag

mutual

/-- Reads a node. Block collections are read if `block` holds, and a sequence whose entries are at
the column of the surrounding mapping if `indentless` holds. -/
def readNode : Nat → (block indentless : Bool) → Reader Node
  | 0, _, _ => throw .misplaced
  | fuel + 1, block, indentless => do
    match ← peekToken with
    | some (.alias name) =>
      skipToken
      addSize 1
      match (← get).names.lookup name with
      | some id => return .alias id
      | none => throw .unknownAnchor
    | _ =>
      let props ← readProperties
      let tag ← resolveTag props.tag
      match props.anchor with
      | none => readContent fuel block indentless (props.tag.isSome) tag
      | some name =>
        let id ← beginAnchor name
        let n ← readContent fuel block indentless true tag
        endAnchor id n
        return .anchored id n

/-- Reads a node after its properties; with properties, a node may be empty. -/
def readContent : Nat → (block indentless hasProperties : Bool) → Option (List UInt8) → Reader Node
  | 0, _, _, _, _ => throw .misplaced
  | fuel + 1, block, indentless, hasProperties, tag => do
    match ← peekToken with
    | some .blockEntry =>
      if indentless then
        addSize 2
        return .sequence (← readIndentless fuel)
      else if hasProperties then
        addSize 1
        return .blank tag
      else throw .misplaced
    | some (.text style content) =>
      skipToken
      addSize 1
      return .text style tag content
    | some .flowSequenceStart =>
      skipToken
      addSize 2
      return .sequence (← readFlowSequence fuel true)
    | some .flowMappingStart =>
      skipToken
      addSize 2
      return .mapping (← readFlowMapping fuel true)
    | some .blockSequenceStart =>
      if block then
        skipToken
        addSize 2
        return .sequence (← readBlockSequence fuel)
      else if hasProperties then
        addSize 1
        return .blank tag
      else throw .misplaced
    | some .blockMappingStart =>
      if block then
        skipToken
        addSize 2
        return .mapping (← readBlockMapping fuel)
      else if hasProperties then
        addSize 1
        return .blank tag
      else throw .misplaced
    | _ =>
      if hasProperties then
        addSize 1
        return .blank tag
      else throw .misplaced

/-- Reads a node unless one of some tokens or the end comes first, which leaves an empty text. -/
def readUnless : Nat → List Token → (block indentless : Bool) → Reader Node
  | 0, _, _, _ => throw .misplaced
  | fuel + 1, stops, block, indentless => do
    match ← peekToken with
    | none => readNode fuel block indentless
    | some t =>
      if stops.contains t then
        addSize 1
        return .blank none
      else readNode fuel block indentless

/-- The entries of a block sequence and its end. -/
def readBlockSequence : Nat → Reader (List Node)
  | 0 => throw .misplaced
  | fuel + 1 => do
    match ← peekToken with
    | some .blockEntry =>
      skipToken
      let item ← readUnless fuel [.blockEntry, .blockEnd] true false
      return item :: (← readBlockSequence fuel)
    | some .blockEnd =>
      skipToken
      return []
    | _ => throw .misplaced

/-- The entries of a sequence at the column of the surrounding mapping. -/
def readIndentless : Nat → Reader (List Node)
  | 0 => throw .misplaced
  | fuel + 1 => do
    match ← peekToken with
    | some .blockEntry =>
      skipToken
      let item ← readUnless fuel [.blockEntry, .key, .value, .blockEnd] true false
      return item :: (← readIndentless fuel)
    | _ => return []

/-- The entries of a block mapping and its end. -/
def readBlockMapping : Nat → Reader (List (Node × Node))
  | 0 => throw .misplaced
  | fuel + 1 => do
    match ← peekToken with
    | some .key =>
      skipToken
      let k ← readUnless fuel [.key, .value, .blockEnd] true true
      let v ← readBlockValue fuel
      return (k, v) :: (← readBlockMapping fuel)
    | some .blockEnd =>
      skipToken
      return []
    | _ => throw .misplaced

/-- The value of an entry of a block mapping. -/
def readBlockValue : Nat → Reader Node
  | 0 => throw .misplaced
  | fuel + 1 => do
    match ← peekToken with
    | some .value =>
      skipToken
      readUnless fuel [.key, .value, .blockEnd] true true
    | _ =>
      addSize 1
      return .blank none

/-- The items of a sequence in brackets and its end. -/
def readFlowSequence : Nat → (first : Bool) → Reader (List Node)
  | 0, _ => throw .misplaced
  | fuel + 1, first => do
    if (← peekToken) == some .flowSequenceEnd then
      skipToken
      return []
    else
      if !first then
        if (← peekToken) == some .flowEntry then skipToken else throw .misplaced
      match ← peekToken with
      | some .flowSequenceEnd =>
        skipToken
        return []
      | some .key =>
        skipToken
        addSize 2
        let pair ← readPair fuel
        return .mapping [pair] :: (← readFlowSequence fuel false)
      | _ =>
        let item ← readNode fuel false false
        return item :: (← readFlowSequence fuel false)

/-- A single pair in a sequence in brackets, after the mark of its key. A pair without a key takes
the token in the place of the key with it. -/
def readPair : Nat → Reader (Node × Node)
  | 0 => throw .misplaced
  | fuel + 1 => do
    match ← peekToken with
    | some .value | some .flowEntry | some .flowSequenceEnd =>
      skipToken
      addSize 1
      return (.blank none, ← readFlowValue fuel .flowSequenceEnd)
    | _ =>
      let k ← readNode fuel false false
      return (k, ← readFlowValue fuel .flowSequenceEnd)

/-- The value of a pair in brackets. -/
def readFlowValue : Nat → Token → Reader Node
  | 0, _ => throw .misplaced
  | fuel + 1, closing => do
    match ← peekToken with
    | some .value =>
      skipToken
      readUnless fuel [.flowEntry, closing] false false
    | _ =>
      addSize 1
      return .blank none

/-- The entries of a mapping in braces and its end. -/
def readFlowMapping : Nat → (first : Bool) → Reader (List (Node × Node))
  | 0, _ => throw .misplaced
  | fuel + 1, first => do
    if (← peekToken) == some .flowMappingEnd then
      skipToken
      return []
    else
      if !first then
        if (← peekToken) == some .flowEntry then skipToken else throw .misplaced
      match ← peekToken with
      | some .flowMappingEnd =>
        skipToken
        return []
      | some .key =>
        skipToken
        let k ← readUnless fuel [.value, .flowEntry, .flowMappingEnd] false false
        let v ← readFlowValue fuel .flowMappingEnd
        return (k, v) :: (← readFlowMapping fuel false)
      | _ =>
        let k ← readNode fuel false false
        addSize 1
        return (k, .blank none) :: (← readFlowMapping fuel false)

end

/-! ### Documents -/

/-- Reads the directives before a document: at most one version, and each handle once. -/
def readDirectives (version : Bool) : List Token → Reader Unit
  | .versionDirective major minor :: rest =>
    if version || major != 1 || (minor != 1 && minor != 2) then throw .directive
    else readDirectives true rest
  | .tagDirective handle lead :: rest => do
    let r ← get
    if (r.handles.lookup handle).isSome then throw .directive
    else
      set { r with handles := (handle, lead) :: r.handles }
      readDirectives version rest
  | rest => modify fun r => { r with tokens := rest }

/-- What the tags of numbers and truth values begin with. -/
def coreLead : List UInt8 :=
  asciiBytes "tag:yaml.org,2002:".toList

/-- Adds the handles that every document has, unless they are defined. -/
def addStandardHandles : Reader Unit :=
  modify fun r =>
    { r with handles := r.handles ++ [(['!'], asciiBytes ['!']), (['!', '!'], coreLead)] }

/-- Reads the document that the tokens begin with. -/
def readDocument (fuel : Nat) : Reader Node := do
  match ← peekToken with
  | some (.versionDirective ..) | some (.tagDirective ..) | some .documentStart =>
    readDirectives false (← get).tokens
    addStandardHandles
    match ← peekToken with
    | some .documentStart =>
      skipToken
      match ← peekToken with
      | none | some (.versionDirective ..) | some (.tagDirective ..) | some .documentStart
      | some .documentEnd =>
        addSize 1
        return .blank none
      | _ => readNode fuel true false
    | _ => throw .misplaced
  | _ =>
    addStandardHandles
    readNode fuel true false

/-- The document of a list of tokens that holds at most one. -/
def Document.ofTokens? (ts : List Token) : Except Fault Document :=
  if ts.isEmpty then .ok ⟨none, [], 0⟩
  else do
    let (n, r) ← (readDocument (3 * ts.length + 8)).run ⟨ts, [], [], [], 0⟩
    if (r.tokens.dropWhile (· == .documentEnd)).isEmpty then .ok ⟨some n, r.anchors, r.size⟩
    else .error .moreDocuments

/-- The document of a text that holds at most one. -/
def Document.parse? (cs : List Char) : Except Fault Document := do
  Document.ofTokens? (← tokens? cs)

end CidrCover.Yaml
