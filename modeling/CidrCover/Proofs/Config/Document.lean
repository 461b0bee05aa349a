import CidrCover.Config.Files
import CidrCover.Config.Reading
import CidrCover.Proofs.Config.Tokens
import CidrCover.Proofs.FileTree.Atomic

/-!
# Saving and loading configurations

**A saved configuration is loaded as it was, or its violation is reported** (`document_roundtrip`):
the document of a configuration describes that configuration, whatever its texts are
(`decode_document`), so only its check can stand in the way. The values of the fields are read back
one by one from the nodes that the document is made of (`Source.read_fields`, `Config.read_fields`).
-/

namespace CidrCover

open Yaml
open Text (numeral)

variable {α β : Type}

/-! ### Values of nodes -/

/-- A text node has its text as its value. -/
theorem asText_text (style : Style) (tag : Option (List UInt8)) (cs : List Char) :
    asText (.text style tag cs) = pure (String.ofList cs) := rfl

/-- A sequence node has its items as its value. -/
theorem asSequence_sequence (items : List Yaml.Node) :
    asSequence (.sequence items) = pure items := rfl

/-- A mapping node has its entries as its value. -/
theorem asMapping_mapping (entries : List (Yaml.Node × Yaml.Node)) :
    asMapping (.mapping entries) = pure entries := rfl

/-- A plain numeral below the greatest number is read as its number. -/
theorem asNat_numeral {n : Nat} (h : n < 2 ^ 64) :
    asNat (.text .plain none (numeral n)) = pure n := by
  have hnumber : asUnquoted "int" (.text .plain none (numeral n)) >>= unsigned? 64 = some n :=
    unsigned?_numeral h
  have hfollow : follow (.text .plain none (numeral n)) =
      pure (.text .plain none (numeral n)) := rfl
  rw [asNat, hfollow, pure_bind, hnumber]

/-- A plain `true` or `false` is read as a flag. -/
theorem asBool_flag (b : Bool) :
    asBool (.text .plain none (if b then "true" else "false").toList) = pure b := by
  cases b <;> rfl

/-- If all items of a list are read then the list is. -/
theorem mapM_map_eq_pure {node : α → Yaml.Node} {value : α → β} {d : Yaml.Node → Decoder β}
    {items : List α} (h : ∀ a ∈ items, d (node a) = pure (value a)) :
    (items.map node).mapM d = pure (items.map value) := by
  induction items with
  | nil => rfl
  | cons a items ih =>
    obtain ⟨ha, hitems⟩ := List.forall_mem_cons.mp h
    rw [List.map_cons, List.mapM_cons, ha, pure_bind, ih hitems, pure_bind, List.map_cons]

/-- The first value of a field is taken. -/
theorem once_none (name : String) (a : α) : once name none (pure a) = pure (some a) := rfl

/-- A text that was written is read as it was. -/
theorem asText_textNode (s : String) : asText (textNode s.toList) = pure s := by
  rw [textNode, asText_text, String.ofList_toList]

/-! ### Sources -/

namespace Source

/-- The fields of a source are read one after another. -/
theorem read_fields (s : Source) :
    SourceFields.read ⟨none, none, none⟩ (s.fields.map Entry.nodes) =
      pure ⟨some s.name, some s.enabled, some s.cidrs⟩ := by
  have hcidrs : ((s.cidrs.map String.toList).map textNode).mapM asText = pure s.cidrs := by
    rw [List.map_map]
    exact (mapM_map_eq_pure fun e _ => asText_textNode e).trans (by rw [List.map_id'])
  simp only [fields, List.map_cons, List.map_nil, Entry.nodes, textField, wordField, listField,
    SourceFields.read, asText_text, String.ofList_toList, pure_bind, String.reduceBEq, if_true,
    Bool.false_eq_true, if_false, asText_textNode, asBool_flag, asSequence_sequence, hcidrs,
    once_none]

/-- The node of a source is read as the source. -/
theorem decode_node (s : Source) : Source.decode s.node = pure s := by
  rw [decode, node, asMapping_mapping, pure_bind, read_fields, pure_bind]
  rfl

end Source

/-! ### Configurations -/

namespace Config

variable {c : Config}

/-- The fields of a configuration are read one after another. -/
theorem read_fields (h : c.maxBlocks < 2 ^ 64) :
    ConfigFields.read ⟨none, none, none, none⟩ (c.fields.map Entry.nodes) =
      pure ⟨some c.maxBlocks, some c.outputFile, some c.variableName, some c.sources⟩ := by
  have hsources : (c.sources.map Source.node).mapM Source.decode = pure c.sources :=
    (mapM_map_eq_pure fun s _ => s.decode_node).trans (by rw [List.map_id'])
  simp only [fields, List.map_cons, List.map_nil, Entry.nodes, textField, wordField, listField,
    ConfigFields.read, asText_text, String.ofList_toList, pure_bind, String.reduceBEq, if_true,
    Bool.false_eq_true, if_false, asText_textNode, asNat_numeral h, asSequence_sequence, hsources,
    once_none]

/-- The document of a configuration describes it. -/
theorem decode_document (h : c.maxBlocks < 2 ^ 64) : Config.decode c.document = .ok c := by
  have hlength : 6 ≤ 2 * c.tokens.length + 7 := by omega
  obtain ⟨size, hdocument⟩ := Document.ofTokens?_of_stands c.stands_node hlength
  have hparse : Document.parse? c.document.toList = .ok ⟨some c.node, [], size⟩ := by
    rw [Document.parse?, tokens?_document, Except.ok_bind, hdocument]
  rw [Config.decode, hparse, Except.ok_bind, ofDocument]
  simp only
  rw [node, asMapping_mapping, pure_bind, read_fields h, pure_bind]
  rfl

/-- The document of a valid configuration is read as that configuration. -/
theorem parse_document_of_ok (h : c.maxBlocks < 2 ^ 64) (hcheck : c.check = .ok ()) :
    Config.parse c.document = .ok c := by
  rw [Config.parse, decode_document h]
  simp only [hcheck]

/-- The document of any other configuration is refused with what the check reports. -/
theorem parse_document_of_error (h : c.maxBlocks < 2 ^ 64) {f : Fault}
    (hcheck : c.check = .error f) : Config.parse c.document = .error ⟨[], f⟩ := by
  rw [Config.parse, decode_document h]
  simp only [hcheck]

/-- What is loaded after saving is what the document is read into. -/
theorem load_save {t : FileTree} {path : String} (hsaved : (c.save t path).2 = .ok ()) :
    load (c.save t path).1 path =
      (Config.parse c.document).mapError (·.within (.loadConfigFile path)) := by
  have hfile := FileTree.replaceFile_ok hsaved
  have htext : (c.save t path).1.readText path = .ok c.document := hfile.readText
  rw [load, htext]

/-- **A saved configuration is loaded as it was, or its violation is reported.** -/
theorem document_roundtrip (c : Config) (h : c.maxBlocks < 2 ^ 64) :
    (c.check = .ok () → Config.parse c.document = .ok c) ∧
      (∀ f, c.check = .error f → Config.parse c.document = .error ⟨[], f⟩) ∧
      ∀ (t : FileTree) (path : String), (c.save t path).2 = .ok () →
        (c.check = .ok () → load (c.save t path).1 path = .ok c) ∧
          ∀ f, c.check = .error f →
            load (c.save t path).1 path = .error ⟨[.loadConfigFile path], f⟩ := by
  refine ⟨parse_document_of_ok h, fun f => parse_document_of_error h, fun t path hsaved => ?_⟩
  rw [load_save hsaved]
  refine ⟨fun hcheck => ?_, fun f hcheck => ?_⟩
  · rw [parse_document_of_ok h hcheck]
    rfl
  · rw [parse_document_of_error h hcheck]
    rfl

/-- A configuration of texts that cannot all be written as they are. -/
def unusual : Config where
  maxBlocks := 2 ^ 64 - 1
  outputFile := ""
  variableName := "true"
  sources :=
    [⟨"# no comment", false, ["null", "1e3", "a: b", " two\nlines\n\n", "it's", "\t\u2028 \x00"]⟩,
      ⟨"- é", true, []⟩]

/-- In a working directory without files a configuration can be written. -/
theorem replaceFile_empty (s : String) :
    (FileTree.empty.replaceFile "cidrcap.yaml" s).2 = .ok () :=
  rfl

/-- The configuration with unusual names passes the check, and comes back from its document and from
a file. -/
theorem document_roundtrip_unusual :
    unusual.maxBlocks < 2 ^ 64 ∧ unusual.check = .ok () ∧
      Config.parse unusual.document = .ok unusual ∧
      load (unusual.save FileTree.empty "cidrcap.yaml").1 "cidrcap.yaml" = .ok unusual := by
  have hbound : unusual.maxBlocks < 2 ^ 64 := by decide
  have hcheck : unusual.check = .ok () := by decide
  obtain ⟨hparse, -, hload⟩ := document_roundtrip unusual hbound
  have hsaved : (unusual.save FileTree.empty "cidrcap.yaml").2 = .ok () :=
    replaceFile_empty unusual.document
  exact ⟨hbound, hcheck, hparse hcheck, (hload _ _ hsaved).1 hcheck⟩

end Config

end CidrCover
