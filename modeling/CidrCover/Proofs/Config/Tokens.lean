import CidrCover.Config.Files
import CidrCover.Proofs.Yaml.Node
import CidrCover.Proofs.Yaml.Unquoted
import CidrCover.Proofs.Yaml.Written

/-!
# Tokens of configuration files

The document of a configuration is read into the tokens of a mapping with a key for each field
(`Config.tokens?_document`), and these stand for a node (`Config.stands_node`).
-/

namespace CidrCover

open Yaml
open Text (numeral)

variable {α : Type} {cs : List Char} {all ts : List Token} {margins : List Nat} {k depth : Nat}
  {p : Position}

/-! ### Sequences -/

/-- The tokens of a sequence below its key. -/
def listTokens (tokens : α → List Token) (items : List α) : List Token :=
  if items.isEmpty then [.flowSequenceStart, .flowSequenceEnd]
  else items.flatMap fun a => .blockEntry :: tokens a

/-- The tokens of the entries and a mark before each are a sequence, three levels deeper than they.
-/
theorem stands_listTokens {tokens : α → List Token} {node : α → Yaml.Node} {items : List α}
    (h : ∀ a ∈ items, Stands false depth (tokens a) (node a)) :
    Stands true (depth + 3) (listTokens tokens items) (.sequence (items.map node)) := by
  cases items with
  | nil => exact (Stands.brackets true).mono (Nat.zero_le _)
  | cons a items => exact Stands.entries (List.cons_ne_nil a items) h

/-- Entries are read one by one, each up to the line after it. -/
theorem goesOn_entries {tokens : α → List Token} {write : α → List Char} {items : List α}
    (hmargin : margins.headD 0 = k + 1) (hspace : ∀ a, (write a).head? = some ' ')
    (hitem : ∀ a (ts : List Token) (cs : List Char),
      GoesOn margins ((tokens a).reverse ++ .blockEntry :: ts) cs all → ∀ q : Position,
        q.column = k + 1 →
          Reads (.outside margins true none (.blockEntry :: ts)) q (write a ++ cs) all)
    (h : GoesOn margins ((items.flatMap fun a => .blockEntry :: tokens a).reverse ++ ts) cs all) :
    GoesOn margins ts ((items.flatMap fun a => spaces k ++ '-' :: write a) ++ cs) all := by
  induction items generalizing ts with
  | nil => exact h
  | cons a items ih =>
    have hmore : GoesOn margins ((tokens a).reverse ++ .blockEntry :: ts)
        ((items.flatMap fun a => spaces k ++ '-' :: write a) ++ cs) all :=
      ih (by simpa using h)
    refine ⟨k, '-' :: (write a ++ ((items.flatMap fun a => spaces k ++ '-' :: write a) ++ cs)),
      by simp, by omega, ?_, Resumes.hyphen hmargin ?_ (hitem a ts _ hmore)⟩
    · rintro c hc
      obtain rfl : '-' = c := Option.some.inj hc
      decide
    · rw [List.head?_append, hspace a]
      rfl

/-- A sequence after the colon of its key. -/
theorem reads_writeEntries {tokens : α → List Token} {write : α → List Char} {items : List α}
    (hmargin : margins.headD 0 = k + 1) (hp : margins.headD 0 ≤ p.column)
    (hspace : ∀ a, (write a).head? = some ' ')
    (hitem : ∀ a (ts : List Token) (cs : List Char),
      GoesOn margins ((tokens a).reverse ++ .blockEntry :: ts) cs all → ∀ q : Position,
        q.column = k + 1 →
          Reads (.outside margins true none (.blockEntry :: ts)) q (write a ++ cs) all)
    (h : GoesOn margins ((listTokens tokens items).reverse ++ ts) cs all) :
    Reads (.outside margins false none ts) p (writeEntries k write items ++ cs) all := by
  cases items with
  | nil =>
    refine Reads.space (GoesOn.emptySequence h ?_)
    rw [Position.column_after rfl]
    exact Nat.le_succ_of_le hp
  | cons a items => exact (goesOn_entries hmargin hspace hitem h).lineEnd stale_none

/-! ### Fields -/

/-- The token of a text as it is written. -/
def textTokens (cs : List Char) : List Token :=
  [.text (styleOf cs) cs]

/-- The node of a text as it is written. -/
def textNode (cs : List Char) : Yaml.Node :=
  .text (styleOf cs) none cs

/-- The field of a text. -/
def textField (key value : String) : Yaml.Entry :=
  ⟨key.toList, textTokens value.toList, textNode value.toList⟩

/-- The field of a word or number, which is written without quotes. -/
def wordField (key : String) (value : List Char) : Yaml.Entry :=
  ⟨key.toList, [.text .plain value], .text .plain none value⟩

/-- The field of a sequence. -/
def listField (key : String) (tokens : α → List Token) (node : α → Yaml.Node) (items : List α) :
    Yaml.Entry :=
  ⟨key.toList, listTokens tokens items, .sequence (items.map node)⟩

/-- A word that is not too long can be a key. -/
theorem keyText_of_word {key : List Char} (hne : key ≠ []) (h : key.all isWordChar = true)
    (hsize : (key.map Char.utf8Size).sum ≤ 1024) : KeyText key where
  plain := plainText_of_word hne h
  first := by
    intro c hc
    have hword := of_isWordChar (List.all_eq_true.mp h c (List.mem_of_mem_head? hc))
    exact ⟨hword.2.2.2.1, hword.2.2.2.2.1⟩
  size := hsize

/-- The head of what is written is a space. -/
theorem head?_write (indent : Nat) (cs : List Char) : (Yaml.write indent cs).head? = some ' ' := by
  unfold Yaml.write
  split <;> rfl

/-- The entries of a list begin with a space, if there are none, or with a new line. -/
theorem head?_writeEntries (k : Nat) (write : α → List Char) (items : List α) (cs : List Char) :
    (writeEntries k write items ++ cs).head? = some ' ' ∨
      (writeEntries k write items ++ cs).head? = some '\n' := by
  cases items with
  | nil => exact Or.inl rfl
  | cons a items => exact Or.inr rfl

/-- A text after its hyphen. -/
theorem reads_entry (hmargin : margins.headD 0 = k + 1) (entry : List Char) (ts : List Token)
    (cs : List Char)
    (h : GoesOn margins ((textTokens entry).reverse ++ .blockEntry :: ts) cs all) (q : Position)
    (hq : q.column = k + 1) :
    Reads (.outside margins true none (.blockEntry :: ts)) q
      (Yaml.write (k + 2) entry ++ cs) all := by
  have hwrite := GoesOn.write (b := true) h (by omega) (show margins.headD 0 ≤ q.column by omega)
  rwa [hmargin] at hwrite

/-- The tokens of a field are those of its value after those of its key. -/
theorem run_reverse (e : Yaml.Entry) (ts : List Token) :
    e.run.reverse ++ ts = e.tokens.reverse ++ .value :: .text .plain e.key :: .key :: ts := by
  simp [Entry.run]

section Lines

variable {key : String} (hkey : KeyText key.toList) (hmargin : margins.headD 0 = k + 1)

include hkey hmargin

/-- A field with any text for its value is scanned as its tokens. -/
theorem goesOn_textField {value : String}
    (h : GoesOn margins ((textField key value).run.reverse ++ ts) cs all) :
    GoesOn margins ts
      (spaces k ++ (key.toList ++ ':' :: (Yaml.write (k + 2) value.toList ++ cs))) all := by
  rw [run_reverse] at h
  refine GoesOn.key hkey hmargin (Or.inl ?_) fun q hq => ?_
  · rw [List.head?_append, head?_write]
    rfl
  · have hwrite := GoesOn.write (b := false) h (by omega) hq
    rwa [hmargin] at hwrite

/-- So is a field with a plain word for its value. -/
theorem goesOn_wordField {value : List Char} (hvalue : PlainText value)
    (h : GoesOn margins ((wordField key value).run.reverse ++ ts) cs all) :
    GoesOn margins ts (spaces k ++ (key.toList ++ ':' :: ' ' :: (value ++ '\n' :: cs))) all := by
  rw [run_reverse] at h
  refine GoesOn.key hkey hmargin (Or.inl rfl) fun q hq => Reads.space ?_
  have hcolumn : (q.after ' ').column = q.column + 1 := Position.column_after rfl
  exact GoesOn.plain h hvalue stale_none (by omega) (by omega)

/-- So is a field with a list for its value, if the items are. -/
theorem goesOn_listField {tokens : α → List Token} {node : α → Yaml.Node} {write : α → List Char}
    {items : List α} (hspace : ∀ a, (write a).head? = some ' ')
    (hitem : ∀ a (ts : List Token) (cs : List Char),
      GoesOn margins ((tokens a).reverse ++ .blockEntry :: ts) cs all → ∀ q : Position,
        q.column = k + 1 →
          Reads (.outside margins true none (.blockEntry :: ts)) q (write a ++ cs) all)
    (h : GoesOn margins ((listField key tokens node items).run.reverse ++ ts) cs all) :
    GoesOn margins ts
      (spaces k ++ (key.toList ++ ':' :: (writeEntries k write items ++ cs))) all := by
  rw [run_reverse] at h
  exact GoesOn.key hkey hmargin (head?_writeEntries k write items cs) fun q hq =>
    reads_writeEntries hmargin hq hspace hitem h

end Lines

/-! ### Sources -/

namespace Source

/-- The fields of a source. -/
def fields (s : Source) : List Yaml.Entry :=
  [textField "name" s.name, wordField "enabled" (if s.enabled then "true" else "false").toList,
    listField "cidrs" textTokens textNode (s.cidrs.map String.toList)]

/-- The tokens of a source. -/
def tokens (s : Source) : List Token :=
  .blockMappingStart :: (s.fields.flatMap Entry.run ++ [.blockEnd])

/-- The node of a source. -/
def node (s : Source) : Yaml.Node :=
  .mapping (s.fields.map Entry.nodes)

/-- The tokens of a source are those of its mapping. -/
theorem stands_node (s : Source) : Stands false 3 s.tokens s.node := by
  refine Stands.mapping false fun e he => ?_
  simp only [fields, List.mem_cons, List.not_mem_nil, or_false] at he
  rcases he with rfl | rfl | rfl
  · exact (Stands.text _ _ true).mono (Nat.zero_le 3)
  · exact (Stands.text _ _ true).mono (Nat.zero_le 3)
  · exact stands_listTokens fun cs _ => Stands.text _ cs false

/-- A source begins with a space, after its hyphen. -/
theorem head?_chars (s : Source) : s.chars.head? = some ' ' := by
  unfold chars
  simp

/-- A source after its hyphen. -/
theorem reads_chars (s : Source) {q : Position} (hq : q.column = 1)
    (h : GoesOn [1] (s.tokens.reverse ++ .blockEntry :: ts) cs all) :
    Reads (.outside [1] true none (.blockEntry :: ts)) q (s.chars ++ cs) all := by
  have hchars : s.chars ++ cs = ' ' :: ("name".toList ++ ':' :: (Yaml.write 4 s.name.toList ++
      (spaces 2 ++ ("enabled".toList ++ ':' ::
        ' ' :: ((if s.enabled then "true" else "false").toList ++ '\n' ::
          (spaces 2 ++ ("cidrs".toList ++ ':' ::
            (writeEntries 2 (Yaml.write 4) (s.cidrs.map String.toList) ++ cs)))))))) := by
    unfold chars
    generalize Yaml.write 4 s.name.toList = name
    generalize writeEntries 2 (Yaml.write 4) (s.cidrs.map String.toList) = cidrs
    cases s.enabled <;> simp [spaces, List.replicate_succ]
  have hkeys : KeyText "name".toList ∧ KeyText "enabled".toList ∧ KeyText "cidrs".toList :=
    ⟨keyText_of_word (by decide) (by decide) (by decide),
      keyText_of_word (by decide) (by decide) (by decide),
      keyText_of_word (by decide) (by decide) (by decide)⟩
  obtain ⟨hname, henabled, hcidrs⟩ := hkeys
  have hplain : PlainText (if s.enabled then "true" else "false").toList := by
    cases s.enabled <;> exact plainText_of_word (by decide) (by decide)
  have hafter : GoesOn [3, 1] ((s.fields.flatMap Entry.run).reverse ++ .blockMappingStart ::
      .blockEntry :: ts) cs all := by
    refine GoesOn.dedent ?_ (by decide)
    rw [tokens] at h
    simpa using h
  simp only [fields, List.flatMap_cons, List.flatMap_nil, List.append_nil, List.reverse_append,
    List.append_assoc] at hafter
  -- from the last field to the first
  have hcidrs' := goesOn_listField hcidrs rfl (head?_write 4) (reads_entry rfl) hafter
  have henabled' := goesOn_wordField henabled rfl hplain hcidrs'
  rw [run_reverse] at henabled'
  have hstart : (q.after ' ').column = 2 := by rw [Position.column_after rfl, hq]
  rw [hchars]
  refine Reads.space
    (Resumes.key hname (by decide) (Or.inl ?_) (fun q' hq' => ?_) none _ hstart stale_none)
  · rw [List.head?_append, head?_write]
    rfl
  · exact henabled'.write (by decide) (by rw [hq']; decide)

end Source

/-! ### Configurations -/

/-- The header of a configuration file consists of comment lines. -/
theorem isRemark_configHeader : isRemark false configHeader.toList = true := by
  unfold configHeader
  simp only [String.toList_append]
  refine isRemark_append (isRemark_append (isRemark_append (isRemark_append (isRemark_append
    ?_ ?_) ?_) ?_) ?_) ?_ <;> decide +kernel

/-- Entries are printable if their items are. -/
theorem printable_writeEntries {write : α → List Char} (k : Nat) {items : List α}
    (h : ∀ a ∈ items, Printable (write a)) : Printable (writeEntries k write items) := by
  unfold writeEntries
  split
  · decide
  · refine printable_cons.mpr ⟨by decide, fun c hc => ?_⟩
    obtain ⟨a, ha, hc⟩ := List.mem_flatMap.mp hc
    have hline : Printable (spaces k ++ '-' :: write a) :=
      printable_append.mpr ⟨printable_spaces, printable_cons.mpr ⟨by decide, h a ha⟩⟩
    exact hline c hc

/-- A source is written in printable characters. -/
theorem Source.printable_chars (s : Source) : Printable s.chars := by
  have hcidrs : Printable (writeEntries 2 (Yaml.write 4) (s.cidrs.map String.toList)) :=
    printable_writeEntries 2 fun cs _ => printable_write 4 cs
  have hflag : Printable (if s.enabled then "true\n" else "false\n").toList := by
    cases s.enabled <;> decide
  have hkeys : Printable " name:".toList ∧ Printable "  enabled: ".toList ∧
      Printable "  cidrs:".toList := by decide
  unfold chars
  simp only [printable_append, hcidrs, hflag, hkeys, printable_write, and_self]

namespace Config

/-- The fields of a configuration. -/
def fields (c : Config) : List Yaml.Entry :=
  [wordField "max_blocks" (numeral c.maxBlocks), textField "output_file" c.outputFile,
    textField "variable" c.variableName, listField "sources" Source.tokens Source.node c.sources]

/-- The tokens of a configuration. -/
def tokens (c : Config) : List Token :=
  .blockMappingStart :: (c.fields.flatMap Entry.run ++ [.blockEnd])

/-- The node of a configuration. -/
def node (c : Config) : Yaml.Node :=
  .mapping (c.fields.map Entry.nodes)

/-- The tokens of a configuration are those of its mapping. -/
theorem stands_node (c : Config) : Stands false 6 c.tokens c.node := by
  refine Stands.mapping false fun e he => ?_
  simp only [fields, List.mem_cons, List.not_mem_nil, or_false] at he
  rcases he with rfl | rfl | rfl | rfl
  · exact (Stands.text _ _ true).mono (Nat.zero_le 6)
  · exact (Stands.text _ _ true).mono (Nat.zero_le 6)
  · exact (Stands.text _ _ true).mono (Nat.zero_le 6)
  · exact stands_listTokens fun s _ => s.stands_node

/-- A configuration is written in printable characters. -/
theorem printable_chars (c : Config) : Printable c.chars := by
  have hsources : Printable (writeEntries 0 Source.chars c.sources) :=
    printable_writeEntries 0 fun s _ => s.printable_chars
  have hkeys : Printable "max_blocks: ".toList ∧ Printable "\noutput_file:".toList ∧
      Printable "variable:".toList ∧ Printable "sources:".toList := by decide
  unfold chars
  simp only [printable_append, hsources, hkeys, printable_write,
    (plainText_numeral _).printable, and_self]

/-- The document of a configuration is read from its first field on. -/
theorem resumes_chars (c : Config) : Resumes [] [] 0 c.chars c.tokens := by
  have hchars : c.chars = "max_blocks".toList ++ ':' :: ' ' :: (numeral c.maxBlocks ++ '\n' ::
      (spaces 0 ++ ("output_file".toList ++ ':' :: (Yaml.write 2 c.outputFile.toList ++
        (spaces 0 ++ ("variable".toList ++ ':' :: (Yaml.write 2 c.variableName.toList ++
          (spaces 0 ++ ("sources".toList ++ ':' ::
            (writeEntries 0 Source.chars c.sources ++ [])))))))))) := by
    unfold chars
    generalize Yaml.write 2 c.outputFile.toList = output
    generalize Yaml.write 2 c.variableName.toList = name
    generalize writeEntries 0 Source.chars c.sources = sources
    simp [spaces]
  have hkeys : KeyText "max_blocks".toList ∧ KeyText "output_file".toList ∧
      KeyText "variable".toList ∧ KeyText "sources".toList :=
    ⟨keyText_of_word (by decide) (by decide) (by decide),
      keyText_of_word (by decide) (by decide) (by decide),
      keyText_of_word (by decide) (by decide) (by decide),
      keyText_of_word (by decide) (by decide) (by decide)⟩
  obtain ⟨hbudget, houtput, hvariable, hsources⟩ := hkeys
  have hend : GoesOn [1] ((c.fields.flatMap Entry.run).reverse ++ [.blockMappingStart]) []
      c.tokens := by
    refine ⟨0, [], rfl, by decide, fun _ h => absurd h (Option.not_mem_none _), ?_⟩
    have hnil : Resumes [1] ((c.fields.flatMap Entry.run).reverse ++ [.blockMappingStart]) 0 [] _ :=
      resumes_nil (by decide)
    simpa [tokens] using hnil
  simp only [fields, List.flatMap_cons, List.flatMap_nil, List.append_nil, List.reverse_append,
    List.append_assoc] at hend
  -- from the last field to the first
  have hsources' := goesOn_listField hsources rfl Source.head?_chars
    (fun s ts cs h q hq => s.reads_chars hq h) hend
  have hvariable' := goesOn_textField hvariable rfl hsources'
  have houtput' := goesOn_textField houtput rfl hvariable'
  rw [run_reverse] at houtput'
  rw [hchars]
  refine Resumes.key hbudget (Nat.zero_le 1) (Or.inl rfl) fun q hq => Reads.space ?_
  have hcolumn : (q.after ' ').column = q.column + 1 := Position.column_after rfl
  have hmargin : [1].headD 0 ≤ (q.after ' ').column := by
    rw [hcolumn]
    exact Nat.le_add_left 1 _
  exact GoesOn.plain houtput' (plainText_numeral _) stale_none (by omega) hmargin

/-- **The document of a configuration is read into its tokens.** -/
theorem tokens?_document (c : Config) : tokens? c.document.toList = .ok c.tokens := by
  rw [document, String.toList_append, String.toList_ofList]
  exact tokens?_of_resumes isRemark_configHeader c.printable_chars c.resumes_chars

end Config

end CidrCover
