import CidrCover.Proofs.Json.Reading
import CidrCover.Terraform.Locals

/-!
# What a locals file says

A locals file is eight lines, the last of them empty (`splitOn_localsText`). Neither the name of the
value nor that of the generator nor the list can add a line: a name is an identifier, a generator is
named on a single line, and the list has no control characters. So a reader who knows where to look
finds all three: `LocalsFile` says what is found and where, and there is at most one triple of which
it is true (`LocalsFile.unique`).

* **Locals files can be read back** (`renderLocals_readable`): which names are accepted, what an
  accepted file says, and that no two accepted triples have the same file.
-/

namespace CidrCover.Terraform

variable {entries : List String} {name generator text : String}

/-! ### Identifiers -/

/-- A letter or an underscore, then letters, digits, underscores and hyphens, and nothing else. -/
def Identifier (name : String) : Prop :=
  ∃ c rest, name.toList = c :: rest ∧ (Text.IsLetter c ∨ c = '_') ∧
    ∀ d ∈ rest, Text.IsLetter d ∨ Text.IsDigit d ∨ d = '_' ∨ d = '-'

/-- The test accepts the identifiers. -/
theorem isIdentifier_iff : isIdentifier name.toList = true ↔ Identifier name := by
  unfold Identifier
  cases name.toList with
  | nil => simp [isIdentifier]
  | cons c rest =>
    simp [isIdentifier, isIdentifierStart, isIdentifierRest, Char.isAlphanum, Text.isAlpha_iff,
      Text.isDigit_iff, or_assoc]

/-- The hyphen is the least character of an identifier. -/
theorem Identifier.le_of_mem (h : Identifier name) {d : Char} (hd : d ∈ name.toList) : '-' ≤ d := by
  obtain ⟨c, rest, hname, hc, hrest⟩ := h
  have hletter : ∀ {c}, Text.IsLetter c → '-' ≤ c := by
    rintro c (⟨hc, -⟩ | ⟨hc, -⟩)
    · exact Char.le_trans (by decide) hc
    · exact Char.le_trans (by decide) hc
  rw [hname, List.mem_cons] at hd
  rcases hd with rfl | hd
  · rcases hc with hc | rfl
    · exact hletter hc
    · decide
  · rcases hrest d hd with hd | hd | rfl | rfl
    · exact hletter hd
    · exact Char.le_trans (by decide) hd.1
    · decide
    · decide

/-! ### Which names are accepted -/

/-- A name that is an identifier is accepted. -/
theorem checkVariable_of_identifier (h : Identifier name) : checkVariable name = .ok () := by
  unfold checkVariable
  rw [if_pos (isIdentifier_iff.mpr h)]

/-- Any other name is refused, and reported as it is. -/
theorem checkVariable_of_not (h : ¬ Identifier name) :
    checkVariable name = .error (.variableName name) := by
  unfold checkVariable
  rw [if_neg (mt isIdentifier_iff.mp h)]

/-- The name of the generator is on a single line. -/
def SingleLine (generator : String) : Prop :=
  '\n' ∉ generator.toList ∧ '\r' ∉ generator.toList

/-- A text with a line end in it is not a single line. -/
theorem any_lineEnd_iff :
    generator.toList.any (fun c => c == '\n' || c == '\r') = true ↔ ¬ SingleLine generator := by
  simp only [List.any_eq_true, Bool.or_eq_true, beq_iff_eq, SingleLine, not_and_or, not_not]
  constructor
  · rintro ⟨c, hc, rfl | rfl⟩
    · exact Or.inl hc
    · exact Or.inr hc
  · rintro (h | h)
    · exact ⟨_, h, Or.inl rfl⟩
    · exact ⟨_, h, Or.inr rfl⟩

/-- A generator on a single line is accepted. -/
theorem checkGenerator_of_singleLine (h : SingleLine generator) :
    checkGenerator generator = .ok () := by
  unfold checkGenerator
  rw [if_neg (fun hany => any_lineEnd_iff.mp hany h)]

/-- Any other generator is refused. -/
theorem checkGenerator_of_not (h : ¬ SingleLine generator) :
    checkGenerator generator = .error .multilineGenerator := by
  unfold checkGenerator
  rw [if_pos (any_lineEnd_iff.mpr h)]

/-- With an identifier and a generator on a single line, the file is rendered. -/
theorem renderLocals_of_valid (hname : Identifier name) (hgenerator : SingleLine generator) :
    renderLocals entries name generator = .ok (localsText entries name generator) := by
  unfold renderLocals
  rw [checkVariable_of_identifier hname, checkGenerator_of_singleLine hgenerator]
  rfl

/-- The name of the variable is looked at first. -/
theorem renderLocals_of_not_identifier (hname : ¬ Identifier name) :
    renderLocals entries name generator = .error (.variableName name) := by
  unfold renderLocals
  rw [checkVariable_of_not hname]
  rfl

/-- A file is rendered if both names are accepted, and then it is the text for them. -/
theorem renderLocals_eq_ok_iff :
    renderLocals entries name generator = .ok text ↔
      (Identifier name ∧ SingleLine generator) ∧ text = localsText entries name generator := by
  by_cases hname : Identifier name
  · by_cases hgenerator : SingleLine generator
    · rw [renderLocals_of_valid hname hgenerator]
      simp [hname, hgenerator, eq_comm]
    · have herror : renderLocals entries name generator = .error .multilineGenerator := by
        unfold renderLocals
        rw [checkVariable_of_identifier hname, checkGenerator_of_not hgenerator]
        rfl
      simp [herror, hgenerator]
  · simp [renderLocals_of_not_identifier hname, hname]

/-! ### The lines of a file -/

/-- The lines of a file. -/
def localsLines (entries : List String) (name generator : String) : List (List Char) :=
  [[],
    "# This file is generated by ".toList ++ generator.toList,
    "# DO NOT EDIT".toList,
    "locals \x7b".toList,
    "    # tflint-ignore: terraform_unused_declarations".toList,
    "    ".toList ++ name.toList ++ " = ".toList ++ Json.writeInline entries,
    "\x7d".toList,
    []]

/-- The text of a file is its seven lines with a line end after each but the last. -/
theorem toList_localsText (entries : List String) (name generator : String) :
    (localsText entries name generator).toList =
      ['\n'].intercalate (localsLines entries name generator) := by
  unfold localsText localsLines
  simp only [String.toList_append, String.toList_ofList, List.intercalate_cons_cons,
    List.intercalate_singleton, List.nil_append, List.append_nil, List.append_assoc]
  rfl

/-- Nothing that goes into a line has an end of line in it. -/
theorem notMem_of_mem_localsLines (hname : Identifier name) {c : Char} (hc : c = '\n' ∨ c = '\r')
    (hgenerator : c ∉ generator.toList) {line : List Char}
    (hline : line ∈ localsLines entries name generator) : c ∉ line := by
  have hsmall : ¬ 0x20 ≤ c.toNat ∧ ¬ '-' ≤ c := by
    rcases hc with rfl | rfl
    · decide
    · decide
  have hname' : c ∉ name.toList := fun h => hsmall.2 (hname.le_of_mem h)
  have hlist : c ∉ Json.writeInline entries := fun h =>
    hsmall.1 (Json.le_toNat_of_mem_writeInline h)
  simp only [localsLines, List.mem_cons, List.not_mem_nil, or_false] at hline
  rcases hc with rfl | rfl <;>
    rcases hline with rfl | rfl | rfl | rfl | rfl | rfl | rfl | rfl <;>
    simp [hgenerator, hname', hlist]

/-- If the names bring no line ends with them, then the text falls into these lines. -/
theorem splitOn_localsText (hname : Identifier name) (hgenerator : '\n' ∉ generator.toList) :
    (localsText entries name generator).toList.splitOn '\n' =
      localsLines entries name generator := by
  rw [toList_localsText]
  apply List.splitOn_intercalate
  · intro line hline
    exact notMem_of_mem_localsLines hname (Or.inl rfl) hgenerator hline
  · exact List.cons_ne_nil _ _

/-! ### What a file says -/

/-- A text of seven lines that names the generator on the second one and, on the sixth, assigns the
entries to the name as a JSON list. -/
structure LocalsFile (text : String) (entries : List String) (name generator : String) : Prop where
  lineFeeds : text.toList.count '\n' = 7
  noReturn : '\r' ∉ text.toList
  second : (text.toList.splitOn '\n')[1]? =
    some ("# This file is generated by ".toList ++ generator.toList)
  sixth : ∃ list, (text.toList.splitOn '\n')[5]? =
      some ("    ".toList ++ name.toList ++ " = ".toList ++ list) ∧
    Json.readStrings? list = some entries

/-- The text of a file is laid out as it has to be. -/
theorem localsFile_localsText (hname : Identifier name) (hgenerator : SingleLine generator) :
    LocalsFile (localsText entries name generator) entries name generator where
  lineFeeds := by
    rw [toList_localsText]
    apply Text.count_intercalate
    intro line hline
    exact notMem_of_mem_localsLines hname (Or.inl rfl) hgenerator.1 hline
  noReturn := by
    rw [toList_localsText]
    intro h
    rcases Text.mem_or_exists_of_mem_intercalate h with h | ⟨line, hline, h⟩
    · exact absurd h (by decide)
    · exact notMem_of_mem_localsLines hname (Or.inr rfl) hgenerator.2 hline h
  second := by
    rw [splitOn_localsText hname hgenerator.1]
    rfl
  sixth := by
    rw [splitOn_localsText hname hgenerator.1]
    exact ⟨_, rfl, Json.readStrings?_writeInline entries⟩

/-- What stands before the first blank tells two names apart. -/
theorem Identifier.append_inj {name' : String} (hname : Identifier name) (hname' : Identifier name')
    {rest rest' : List Char} (h : name.toList ++ ' ' :: rest = name'.toList ++ ' ' :: rest') :
    name = name' ∧ rest = rest' := by
  have hblank : ∀ {name : String}, Identifier name → ∀ d ∈ name.toList, (d != ' ') = true := by
    intro name hname d hd
    have hle := hname.le_of_mem hd
    rw [bne_iff_ne]
    rintro rfl
    exact absurd hle (by decide)
  have hparts : name.toList = name'.toList := by
    have htake := congrArg (List.takeWhile (· != ' ')) h
    rwa [List.takeWhile_append_of_pos (hblank hname), List.takeWhile_append_of_pos (hblank hname'),
      List.takeWhile_cons_of_neg (by simp), List.takeWhile_cons_of_neg (by simp), List.append_nil,
      List.append_nil] at htake
  rw [hparts, List.append_cancel_left_eq, List.cons.injEq] at h
  exact ⟨String.toList_inj.mp hparts, h.2⟩

/-- **A file says one thing.** -/
theorem LocalsFile.unique {entries' : List String} {name' generator' : String}
    (h : LocalsFile text entries name generator) (h' : LocalsFile text entries' name' generator')
    (hname : Identifier name) (hname' : Identifier name') :
    entries = entries' ∧ name = name' ∧ generator = generator' := by
  obtain ⟨list, hlist, hread⟩ := h.sixth
  obtain ⟨list', hlist', hread'⟩ := h'.sixth
  have hgenerator := h.second.symm.trans h'.second
  have hsixth := hlist.symm.trans hlist'
  simp only [Option.some.injEq, List.append_assoc, List.append_cancel_left_eq] at hgenerator hsixth
  have hafter : name.toList ++ ' ' :: ("= ".toList ++ list) =
      name'.toList ++ ' ' :: ("= ".toList ++ list') := hsixth
  obtain ⟨hnames, hrest⟩ := hname.append_inj hname' hafter
  rw [List.append_cancel_left_eq] at hrest
  rw [← hrest, hread, Option.some.injEq] at hread'
  exact ⟨hread', hnames, String.toList_inj.mp hgenerator⟩

/-! ### Reading back -/

/-- **Locals files can be read back**: which names are accepted, what is found in a file, and that
no other list and names have that file. -/
theorem renderLocals_readable :
    (∀ (entries : List String) (name generator : String),
      ((∃ text, renderLocals entries name generator = .ok text) ↔
        Identifier name ∧ '\n' ∉ generator.toList ∧ '\r' ∉ generator.toList) ∧
      ∀ text, renderLocals entries name generator = .ok text →
        LocalsFile text entries name generator) ∧
    ∀ (entries entries' : List String) (name name' generator generator' text : String),
      renderLocals entries name generator = .ok text →
      renderLocals entries' name' generator' = .ok text →
      entries = entries' ∧ name = name' ∧ generator = generator' := by
  have hfile : ∀ {entries name generator text},
      renderLocals entries name generator = .ok text →
      Identifier name ∧ LocalsFile text entries name generator := by
    intro entries name generator text h
    obtain ⟨⟨hname, hgenerator⟩, rfl⟩ := renderLocals_eq_ok_iff.mp h
    exact ⟨hname, localsFile_localsText hname hgenerator⟩
  refine ⟨fun entries name generator => ⟨?_, fun text h => (hfile h).2⟩, ?_⟩
  · constructor
    · rintro ⟨text, h⟩
      exact (renderLocals_eq_ok_iff.mp h).1
    · rintro ⟨hname, hgenerator⟩
      exact ⟨_, renderLocals_of_valid hname hgenerator⟩
  · intro entries entries' name name' generator generator' text h h'
    obtain ⟨hname, hsays⟩ := hfile h
    obtain ⟨hname', hsays'⟩ := hfile h'
    exact hsays.unique hsays' hname hname'

/-- An entry that looks like the end of the list and of the file, and one in another script. -/
theorem renderLocals_readable_of_hostile_entries :
    renderLocals ["\"]\n\x7d\n", "Ж"] "cidrs" "cidrcap" =
        .ok (localsText ["\"]\n\x7d\n", "Ж"] "cidrs" "cidrcap") ∧
      LocalsFile (localsText ["\"]\n\x7d\n", "Ж"] "cidrs" "cidrcap") ["\"]\n\x7d\n", "Ж"] "cidrs"
        "cidrcap" ∧
      ["\"]\n\x7d\n", "Ж"] = ["\"]\n\x7d\n", "Ж"] ∧ "cidrs" = "cidrs" ∧ "cidrcap" = "cidrcap" := by
  have hok : renderLocals ["\"]\n\x7d\n", "Ж"] "cidrs" "cidrcap" =
      .ok (localsText ["\"]\n\x7d\n", "Ж"] "cidrs" "cidrcap") := rfl
  exact ⟨hok, (renderLocals_readable.1 _ _ _).2 _ hok,
    renderLocals_readable.2 _ _ _ _ _ _ _ hok hok⟩

end CidrCover.Terraform
