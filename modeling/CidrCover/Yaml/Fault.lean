/-!
# Faults of documents

Why a text is no document, or a document not of the expected form.
-/

namespace CidrCover.Yaml

/-- Why a text cannot be read. -/
inductive Fault where
  /-- A character that may not stand in a document. -/
  | character
  /-- A character that begins no token. -/
  | tokenStart
  /-- A line that has to begin with a key has no colon. -/
  | keyWithoutColon
  /-- A sequence entry where none may stand. -/
  | entryPlace
  /-- A key where none may stand. -/
  | keyPlace
  /-- A colon where none may stand. -/
  | colonPlace
  /-- A tab in the indentation. -/
  | tabIndentation
  /-- A quoted text without its closing quote. -/
  | unclosedQuote
  /-- A document mark inside a quoted text. -/
  | markInQuote
  /-- An unknown or incomplete escape. -/
  | escape
  /-- An anchor or alias without a proper name. -/
  | anchorName
  /-- A malformed tag, or one with an unknown handle. -/
  | tag
  /-- A malformed or repeated directive. -/
  | directive
  /-- A malformed first line of a block text. -/
  | blockHeader
  /-- A token that the structure does not allow. -/
  | misplaced
  /-- An alias of no anchor. -/
  | unknownAnchor
  /-- More than one document. -/
  | moreDocuments
  /-- A value of another type. -/
  | type (expected : String)
  /-- A field that has to be there is missing. -/
  | missingField (name : String)
  /-- A field is given twice. -/
  | duplicateField (name : String)
  /-- Aliases stand for too much. -/
  | repetition
  deriving DecidableEq, Repr

/-- The wording of a fault. -/
def Fault.message : Fault → String
  | .character => "control characters are not allowed"
  | .tokenStart => "found character that cannot start any token"
  | .keyWithoutColon => "could not find expected ':'"
  | .entryPlace => "block sequence entries are not allowed in this context"
  | .keyPlace => "mapping keys are not allowed in this context"
  | .colonPlace => "mapping values are not allowed in this context"
  | .tabIndentation => "found a tab character where indentation is expected"
  | .unclosedQuote => "found unexpected end of stream"
  | .markInQuote => "found unexpected document indicator"
  | .escape => "found unknown escape character"
  | .anchorName => "did not find expected alphabetic or numeric character"
  | .tag => "did not find expected tag"
  | .directive => "did not find expected directive"
  | .blockHeader => "did not find expected comment or line break"
  | .misplaced => "did not find expected node content"
  | .unknownAnchor => "unknown anchor"
  | .moreDocuments => "deserializing from YAML containing more than one document is not supported"
  | .type expected => "invalid type, expected " ++ expected
  | .missingField name => "missing field " ++ name
  | .duplicateField name => "duplicate field " ++ name
  | .repetition => "repetition limit exceeded"

end CidrCover.Yaml
