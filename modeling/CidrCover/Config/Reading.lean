import CidrCover.Config.Basic
import CidrCover.Yaml.Decode

/-!
# Reading configurations

`Config.parse` reads a configuration from a YAML document and checks it. Fields that are not given
have the values of the built-in configuration, a source is enabled and without entries unless it
says otherwise, and fields of other names are passed over. No field may be given twice.
-/

namespace CidrCover

open Yaml

/-- A value that has not been given before. -/
def once {α : Type} (name : String) (given : Option α) (value : Decoder α) :
    Decoder (Option α) := do
  if given.isSome then throw (.duplicateField name)
  return some (← value)

/-- The fields of a source that have been given. -/
structure SourceFields where
  name : Option String
  enabled : Option Bool
  cidrs : Option (List String)

/-- Reads the entries of a mapping that describes a source. -/
def SourceFields.read (f : SourceFields) : List (Yaml.Node × Yaml.Node) → Decoder SourceFields
  | [] => return f
  | (k, v) :: rest => do
    let key ← asText k
    let f ←
      if key == "name" then
        pure { f with name := ← once key f.name (asText v) }
      else if key == "enabled" then
        pure { f with enabled := ← once key f.enabled (asBool v) }
      else if key == "cidrs" then
        pure { f with cidrs := ← once key f.cidrs (do (← asSequence v).mapM asText) }
      else pure f
    read f rest

/-- Reads a source. -/
def Source.decode (n : Yaml.Node) : Decoder Source := do
  let f ← SourceFields.read ⟨none, none, none⟩ (← asMapping n)
  match f.name with
  | none => throw (.missingField "name")
  | some name => return ⟨name, f.enabled.getD true, f.cidrs.getD []⟩

/-- The fields of a configuration that have been given. -/
structure ConfigFields where
  maxBlocks : Option Nat
  outputFile : Option String
  variableName : Option String
  sources : Option (List Source)

/-- Reads the entries of a mapping that describes a configuration. -/
def ConfigFields.read (f : ConfigFields) : List (Yaml.Node × Yaml.Node) → Decoder ConfigFields
  | [] => return f
  | (k, v) :: rest => do
    let key ← asText k
    let f ←
      if key == "max_blocks" then
        pure { f with maxBlocks := ← once key f.maxBlocks (asNat v) }
      else if key == "output_file" then
        pure { f with outputFile := ← once key f.outputFile (asText v) }
      else if key == "variable" then
        pure { f with variableName := ← once key f.variableName (asText v) }
      else if key == "sources" then
        pure { f with sources := ← once key f.sources (do (← asSequence v).mapM Source.decode) }
      else pure f
    read f rest

/-- The configuration with the values of the built-in one for what is not given. -/
def ConfigFields.complete (f : ConfigFields) : Config where
  maxBlocks := f.maxBlocks.getD Config.builtIn.maxBlocks
  outputFile := f.outputFile.getD Config.builtIn.outputFile
  variableName := f.variableName.getD Config.builtIn.variableName
  sources := f.sources.getD Config.builtIn.sources

/-- The configuration that a document describes. -/
def Config.ofDocument (doc : Document) : Except Yaml.Fault Config :=
  match doc.root with
  | none => .ok .builtIn
  | some n =>
    Decoder.run (do
      return (← ConfigFields.read ⟨none, none, none, none⟩ (← asMapping n)).complete) doc

/-- Reads a configuration without checking it. -/
def Config.decode (text : String) : Except Yaml.Fault Config := do
  Config.ofDocument (← Document.parse? text.toList)

/-- Reads a configuration and checks it. -/
def Config.parse (text : String) : Except Failure Config :=
  match Config.decode text with
  | .error f => .error ⟨[.parseYaml], .yaml f⟩
  | .ok c =>
    match c.check with
    | .error f => .error f
    | .ok () => .ok c

end CidrCover
