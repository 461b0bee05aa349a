import CidrCover.Proofs.Text.Basic
import CidrCover.Text.Quoting

/-!
# Reading JSON lists of strings

The other side of `Json.Written`: a reader of JSON arrays whose items are strings, with blanks
between the tokens, all escapes, and characters above the basic plane as pairs of code units. A text
is taken apart into tokens first (`lex?`); `readStrings?` then reads an array from them. What reads
a part of a text tells how many characters that part takes up.

* **Reading what was written** (`readStrings?_writeInline`, `readStrings?_writeLines`): a list of
  strings comes back as it was, whatever the strings hold, from its line and also from lines of one
  item each. So it is determined by what is written.
* `le_toNat_of_mem_writeInline`: there is no control character in that line.
-/

namespace CidrCover.Json

/-! ### Characters -/

/-- The value of a hexadecimal digit, of either case. -/
def hexValue? (c : Char) : Option Nat :=
  if '0' ≤ c ∧ c ≤ '9' then some (c.toNat - '0'.toNat)
  else if 'a' ≤ c ∧ c ≤ 'f' then some (c.toNat - 'a'.toNat + 10)
  else if 'A' ≤ c ∧ c ≤ 'F' then some (c.toNat - 'A'.toNat + 10)
  else none

/-- Reads a code unit: four hexadecimal digits. -/
def readUnit? : List Char → Option Nat
  | a :: b :: c :: d :: _ => do
    let ds ← [a, b, c, d].mapM hexValue?
    return ds.foldl (fun n d => n * 16 + d) 0
  | _ => none

/-- Reads a character given by its code: one unit, or a leading and a trailing one. -/
def readCode? (cs : List Char) : Option (Char × Nat) := do
  let unit ← readUnit? cs
  if unit < 0xD800 ∨ 0xE000 ≤ unit then return (Char.ofNat unit, 4)
  else if 0xDC00 ≤ unit then none
  else
    match cs.drop 4 with
    | '\\' :: 'u' :: rest =>
      let trailing ← readUnit? rest
      if 0xDC00 ≤ trailing ∧ trailing < 0xE000 then
        return (Char.ofNat (0x10000 + (unit - 0xD800) * 0x400 + (trailing - 0xDC00)), 10)
      else none
    | _ => none

/-- The characters that a backslash and one more character stand for. -/
def shortEscapes : List (Char × Char) :=
  [('"', '"'), ('\\', '\\'), ('/', '/'), ('b', '\x08'), ('f', '\x0c'), ('n', '\n'), ('r', '\r'),
    ('t', '\t')]

/-- Reads what stands after a backslash. -/
def readEscape? : List Char → Option (Char × Nat)
  | [] => none
  | c :: rest =>
    match shortEscapes.lookup c with
    | some d => some (d, 1)
    | none => if c = 'u' then (readCode? rest).map fun (d, n) => (d, n + 1) else none

/-- Reads a character within a string. A quote and a control character have to be escaped. -/
def readChar? : List Char → Option (Char × Nat)
  | [] => none
  | c :: rest =>
    if c = '\\' then (readEscape? rest).map fun (d, n) => (d, n + 1)
    else if c = '"' ∨ c.toNat < 0x20 then none
    else some (c, 1)

/-! ### Strings and tokens -/

/-- Reads what stands between the quotes of a string, and the closing one. -/
def readChars? : List Char → Option (List Char × Nat)
  | [] => none
  | c :: rest =>
    if c = '"' then some ([], 1)
    else
      match readChar? (c :: rest) with
      | none => none
      | some (d, n) => (readChars? (rest.drop (n - 1))).map fun (ds, m) => (d :: ds, n + m)
termination_by cs => cs.length
decreasing_by
  rw [List.length_drop, List.length_cons]
  omega

/-- A part of a text. -/
inductive Token where
  | opening
  | closing
  | comma
  | text (s : String)
  deriving DecidableEq

/-- The character may stand between tokens. -/
def isBlank (c : Char) : Bool :=
  c == ' ' || c == '\t' || c == '\n' || c == '\r'

/-- Takes a text apart. -/
def lex? : List Char → Option (List Token)
  | [] => some []
  | c :: rest =>
    if isBlank c then lex? rest
    else if c = '[' then (lex? rest).map (.opening :: ·)
    else if c = ']' then (lex? rest).map (.closing :: ·)
    else if c = ',' then (lex? rest).map (.comma :: ·)
    else if c = '"' then
      match readChars? rest with
      | none => none
      | some (cs, n) => (lex? (rest.drop n)).map (.text (String.ofList cs) :: ·)
    else none
termination_by cs => cs.length
decreasing_by
  all_goals simp only [List.length_drop, List.length_cons]
  all_goals omega

/-- The items of an array that has some, and its end. -/
def readItems? : List Token → Option (List String)
  | [.text s, .closing] => some [s]
  | .text s :: .comma :: rest => (readItems? rest).map (s :: ·)
  | _ => none

/-- Reads a text that is an array of strings. -/
def readStrings? (cs : List Char) : Option (List String) :=
  match lex? cs with
  | some [.opening, .closing] => some []
  | some (.opening :: rest) => readItems? rest
  | _ => none

/-! ### Reading a character that was written -/

/-- A hexadecimal digit has the value that it was written for. -/
theorem hexValue?_hexDigit : ∀ {n : Nat}, n < 16 → hexValue? (hexDigit n) = some n := by
  decide

/-- A control character comes back from its code. -/
theorem readCode?_code {c : Char} (h : c.toNat < 0x20) (rest : List Char) :
    readCode? ('0' :: '0' :: hexDigit (c.toNat / 16) :: hexDigit (c.toNat % 16) :: rest) =
      some (c, 4) := by
  have hzero : hexValue? '0' = some 0 := rfl
  have hhigh : hexValue? (hexDigit (c.toNat / 16)) = some (c.toNat / 16) :=
    hexValue?_hexDigit (by omega)
  have hlow : hexValue? (hexDigit (c.toNat % 16)) = some (c.toNat % 16) :=
    hexValue?_hexDigit (by omega)
  have hunit :
      readUnit? ('0' :: '0' :: hexDigit (c.toNat / 16) :: hexDigit (c.toNat % 16) :: rest) =
        some c.toNat := by
    simp [readUnit?, hzero, hhigh, hlow]
    omega
  have hsmall : c.toNat < 0xD800 ∨ 0xE000 ≤ c.toNat := Or.inl (by omega)
  simp [readCode?, hunit, hsmall]

/-- A character is read back from the way in which it was written, and nothing after that is. -/
theorem readChar?_escape (c : Char) (rest : List Char) :
    readChar? (escape c ++ rest) = some (c, (escape c).length) := by
  unfold escape
  split_ifs with h1 h2 h3 h4 h5 h6 h7 h8
  · subst h1; rfl
  · subst h2; rfl
  · subst h3; rfl
  · subst h4; rfl
  · subst h5; rfl
  · subst h6; rfl
  · subst h7; rfl
  · have hcode := readCode?_code h8 rest
    have hlookup : shortEscapes.lookup 'u' = none := rfl
    simp [readChar?, readEscape?, hlookup, hcode]
  · simp [readChar?, h1, h2, h8]

/-- No escape begins with a quote, which would end the string. -/
theorem escape_eq_cons (c : Char) : ∃ d ds, escape c = d :: ds ∧ d ≠ '"' := by
  unfold escape
  split_ifs with h1 h2 h3 h4 h5 h6 h7 h8
  all_goals first
    | exact ⟨'\\', _, rfl, by decide⟩
    | exact ⟨c, [], rfl, h1⟩

/-- So the characters go on with those of the rest. -/
theorem readChars?_escape (c : Char) (rest : List Char) :
    readChars? (escape c ++ rest) =
      (readChars? rest).map fun (ds, n) => (c :: ds, (escape c).length + n) := by
  have hread := readChar?_escape c rest
  obtain ⟨d, ds, hescape, hquote⟩ := escape_eq_cons c
  rw [hescape] at hread ⊢
  rw [List.cons_append] at hread ⊢
  rw [readChars?, if_neg hquote, hread]
  simp

/-! ### Reading a list that was written -/

/-- A text that was written is read up to its closing quote. -/
theorem readChars?_flatMap_escape (cs rest : List Char) :
    readChars? (cs.flatMap escape ++ '"' :: rest) = some (cs, (cs.flatMap escape).length + 1) := by
  induction cs with
  | nil => simp [readChars?]
  | cons c cs ih =>
    rw [List.flatMap_cons, List.append_assoc, readChars?_escape, ih]
    simp [Nat.add_assoc]

/-- A string that was written is one token. -/
theorem lex?_writeString (cs rest : List Char) :
    lex? (writeString cs ++ rest) = (lex? rest).map (.text (String.ofList cs) :: ·) := by
  have hread := readChars?_flatMap_escape cs rest
  have hblank : isBlank '"' = false := rfl
  have hdrop : (cs.flatMap escape ++ '"' :: rest).drop ((cs.flatMap escape).length + 1) = rest := by
    rw [List.drop_append]
    simp
  simp [writeString, lex?, hread, hblank, hdrop, -List.length_flatMap]

/-- The tokens of the items of an array, and its end. -/
def itemTokens : List String → List Token
  | [] => [.closing]
  | [s] => [.text s, .closing]
  | s :: t :: items => .text s :: .comma :: itemTokens (t :: items)

/-- Blanks before a token are passed. -/
theorem lex?_blanks {blanks : List Char} (h : ∀ c ∈ blanks, isBlank c = true) (rest : List Char) :
    lex? (blanks ++ rest) = lex? rest := by
  induction blanks with
  | nil => rfl
  | cons c blanks ih =>
    obtain ⟨hc, hblanks⟩ := List.forall_mem_cons.mp h
    rw [List.cons_append, lex?, if_pos hc, ih hblanks]

/-- The items with blanks before each of them and after each comma. -/
theorem lex?_items {gap indent rest : List Char} (hgap : ∀ c ∈ gap, isBlank c = true)
    (hindent : ∀ c ∈ indent, isBlank c = true) (hrest : lex? rest = some [.closing])
    (items : List String) :
    lex? ((',' :: gap).intercalate (items.map fun s => indent ++ writeString s.toList) ++ rest) =
      some (itemTokens items) := by
  have hcomma : isBlank ',' = false := rfl
  fun_induction itemTokens items with
  | case1 => exact hrest
  | case2 s => simp [lex?_blanks hindent, lex?_writeString, hrest]
  | case3 s t items ih =>
    rw [List.map_cons] at ih
    rw [List.map_cons, List.map_cons, List.intercalate_cons_cons, List.append_assoc,
      List.append_assoc, List.append_assoc, lex?_blanks hindent, lex?_writeString]
    simp [lex?, hcomma, lex?_blanks hgap, ih]

/-- Items with commas between them are read as the items. -/
theorem readItems?_itemTokens (s : String) (items : List String) :
    readItems? (itemTokens (s :: items)) = some (s :: items) := by
  induction items generalizing s with
  | nil => rfl
  | cons t items ih => simp [itemTokens, readItems?, ih]

/-- A text that has the tokens of a list is read as that list. -/
theorem readStrings?_of_lex? {cs : List Char} {items : List String}
    (h : lex? cs = some (.opening :: itemTokens items)) : readStrings? cs = some items := by
  unfold readStrings?
  rw [h]
  cases items with
  | nil => rfl
  | cons s items =>
    rw [← readItems?_itemTokens]
    cases items <;> rfl

/-- After the closing bracket there may be blanks. -/
theorem lex?_closing {rest : List Char} (h : ∀ c ∈ rest, isBlank c = true) :
    lex? (']' :: rest) = some [.closing] := by
  have hclosing : isBlank ']' = false := rfl
  have hrest := lex?_blanks h []
  rw [List.append_nil] at hrest
  simp [lex?, hclosing, hrest]

/-- **Reading what was written**: a list of strings comes back from its line. -/
theorem readStrings?_writeInline (items : List String) :
    readStrings? (writeInline items) = some items := by
  have hopening : isBlank '[' = false := rfl
  have hblank : ∀ c ∈ [' '], isBlank c = true := List.forall_mem_singleton.mpr rfl
  have hitems := lex?_items hblank (List.forall_mem_nil _) (lex?_closing (List.forall_mem_nil _))
    items
  simp only [List.nil_append] at hitems
  apply readStrings?_of_lex?
  simp [writeInline, lex?, hopening, hitems]

/-- A list of strings comes back from its lines, whatever blanks follow. -/
theorem readStrings?_writeLines {rest : List Char} (hrest : ∀ c ∈ rest, isBlank c = true)
    (items : List String) : readStrings? (writeLines items ++ rest) = some items := by
  have hopening : isBlank '[' = false := rfl
  have hlineEnd : ∀ c ∈ ['\n'], isBlank c = true := List.forall_mem_singleton.mpr rfl
  have hindent : ∀ c ∈ [' ', ' '], isBlank c = true :=
    List.forall_mem_cons.mpr ⟨rfl, List.forall_mem_singleton.mpr rfl⟩
  have hclosing := (lex?_blanks hlineEnd _).trans (lex?_closing hrest)
  have hitems := (lex?_blanks hlineEnd _).trans (lex?_items hlineEnd hindent hclosing items)
  apply readStrings?_of_lex?
  cases items with
  | nil => simp [writeLines, lex?, hopening, lex?_closing hrest, itemTokens]
  | cons s items => simpa [writeLines, lex?, hopening] using hitems

/-! ### No control characters -/

/-- A hexadecimal digit is no control character. -/
theorem le_toNat_hexDigit : ∀ {n : Nat}, n < 16 → 0x20 ≤ (hexDigit n).toNat := by
  decide

/-- No character is written with a control character in it. -/
theorem le_toNat_of_mem_escape {c d : Char} (h : d ∈ escape c) : 0x20 ≤ d.toNat := by
  unfold escape at h
  split_ifs at h with h1 h2 h3 h4 h5 h6 h7 h8
  all_goals simp only [List.mem_cons, List.not_mem_nil, or_false] at h
  iterate 7
    · rcases h with rfl | rfl <;> decide
  · have hhigh : 0x20 ≤ (hexDigit (c.toNat / 16)).toNat := le_toNat_hexDigit (by omega)
    have hlow : 0x20 ≤ (hexDigit (c.toNat % 16)).toNat := le_toNat_hexDigit (by omega)
    rcases h with rfl | rfl | rfl | rfl | rfl | rfl
    · decide
    · decide
    · decide
    · decide
    · exact hhigh
    · exact hlow
  · rw [h]
    exact Nat.not_lt.mp h8

/-- No string is written with a control character in it. -/
theorem le_toNat_of_mem_writeString {cs : List Char} {d : Char} (h : d ∈ writeString cs) :
    0x20 ≤ d.toNat := by
  unfold writeString at h
  simp only [List.mem_append, List.mem_cons, List.mem_flatMap, List.not_mem_nil, or_false] at h
  rcases h with (rfl | ⟨c, -, hd⟩) | rfl
  · decide
  · exact le_toNat_of_mem_escape hd
  · decide

/-- No list on one line is written with a control character in it. -/
theorem le_toNat_of_mem_writeInline {items : List String} {d : Char} (h : d ∈ writeInline items) :
    0x20 ≤ d.toNat := by
  unfold writeInline at h
  simp only [List.mem_append, List.mem_cons, List.not_mem_nil, or_false] at h
  have hseparator : ∀ d ∈ [',', ' '], 0x20 ≤ d.toNat := by
    intro d hd
    rw [List.mem_pair] at hd
    rcases hd with rfl | rfl
    · decide
    · decide
  rcases h with (rfl | h) | rfl
  · decide
  · rcases Text.mem_or_exists_of_mem_intercalate h with hd | ⟨text, htext, hd⟩
    · exact hseparator d hd
    · obtain ⟨s, -, rfl⟩ := List.mem_map.mp htext
      exact le_toNat_of_mem_writeString hd
  · decide

end CidrCover.Json
