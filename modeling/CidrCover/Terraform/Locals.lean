import CidrCover.Fault

/-!
# Locals files

The Terraform file that holds a list of blocks as a local value: seven lines, of which the first is
empty, the second names the generator, and the sixth assigns the list. The name of the value has to
be an identifier: a letter or an underscore, then letters, digits, underscores and hyphens, all of
them ASCII. That name and that of the generator are checked, so that neither can add a line.
-/

namespace CidrCover

/-! ### Identifiers -/

namespace Terraform

/-- The character may begin an identifier. -/
def isIdentifierStart (c : Char) : Bool :=
  c.isAlpha || c == '_'

/-- The character may go on with an identifier. -/
def isIdentifierRest (c : Char) : Bool :=
  c.isAlphanum || c == '_' || c == '-'

/-- The text is an identifier. -/
def isIdentifier : List Char → Bool
  | [] => false
  | c :: rest => isIdentifierStart c && rest.all isIdentifierRest

end Terraform

/-- A variable has to be an identifier. -/
def checkVariable (name : String) : Except Fault Unit :=
  if Terraform.isIdentifier name.toList then .ok () else .error (.variableName name)

/-! ### Files -/

namespace Terraform

/-- The name of the generator in the files that this program writes. -/
def generatorName : String := "cidrcap"

/-- The generator has to be named on a single line. -/
def checkGenerator (generator : String) : Except Fault Unit :=
  if generator.toList.any fun c => c == '\n' || c == '\r' then .error .multilineGenerator
  else .ok ()

/-- The text of a file, whatever the names are. -/
def localsText (entries : List String) (name generator : String) : String :=
  "\n# This file is generated by " ++ generator
    ++ "\n# DO NOT EDIT\nlocals \x7b\n    # tflint-ignore: terraform_unused_declarations\n    "
    ++ name ++ " = " ++ String.ofList (Json.writeInline entries) ++ "\n\x7d\n"

/-- The text of a file that assigns a list of entries to a local value. -/
def renderLocals (entries : List String) (name generator : String) : Except Fault String := do
  checkVariable name
  checkGenerator generator
  return localsText entries name generator

end Terraform

end CidrCover
