import CidrCover.Proofs.Except
import CidrCover.Yaml.Node

/-!
# Reading nodes from tokens

What a reader of nodes makes of the tokens that it passes (`Gives`), up to the measure of the
document. Texts, empty sequences in brackets, sequences at the column of the surrounding mapping and
mappings are read from the tokens that stand for them (`Stands`); each rule says so of one kind of
node, given that it holds of the nodes inside.
-/

namespace CidrCover.Yaml

variable {α β : Type} {a : α} {b : β} {ts ts' rest : List Token} {t : Token} {n : Node}
  {fuel depth : Nat} {block indentless : Bool}

/-- A reader passes tokens and gives a value; of its state the measure alone may change. -/
def Gives (m : Reader α) (ts rest : List Token) (a : α) : Prop :=
  ∀ r : Reading, r.tokens = ts ++ rest →
    ∃ size, m r = .ok (a, { r with tokens := rest, size })

namespace Gives

/-- Two readers, one after the other, read the tokens of the first and then those of the second. -/
theorem bind {m : Reader α} {f : α → Reader β} (h : Gives m ts (ts' ++ rest) a)
    (h' : Gives (f a) ts' rest b) : Gives (m >>= f) (ts ++ ts') rest b := by
  intro r hr
  obtain ⟨size, hm⟩ := h r (by rw [hr, List.append_assoc])
  obtain ⟨size', hf⟩ := h' { r with tokens := ts' ++ rest, size } rfl
  refine ⟨size', ?_⟩
  show (m r >>= fun x => f x.1 x.2) = _
  rw [hm]
  exact hf

/-- What passes no tokens may stand in front. -/
theorem bind_nil {m : Reader α} {f : α → Reader β} (h : Gives m [] (ts ++ rest) a)
    (h' : Gives (f a) ts rest b) : Gives (m >>= f) ts rest b :=
  bind h h'

/-- A result that is there at once takes no token. -/
theorem pure (a : α) (rest : List Token) : Gives (Pure.pure a) [] rest a := by
  intro r hr
  obtain rfl : r.tokens = rest := hr
  exact ⟨r.size, rfl⟩

/-- What is given is used without passing further tokens. -/
theorem bind_pure {m : Reader α} (f : α → β) (h : Gives m ts rest a) :
    Gives (m >>= fun a => Pure.pure (f a)) ts rest (f a) := by
  have hbind : Gives (m >>= fun a => Pure.pure (f a)) (ts ++ []) rest (f a) := bind h (pure _ rest)
  rwa [List.append_nil] at hbind

/-- To look at the next token takes none. -/
theorem peek (rest : List Token) : Gives peekToken [] rest rest.head? := by
  intro r hr
  obtain rfl : r.tokens = rest := hr
  exact ⟨r.size, rfl⟩

/-- To pass the next token takes that one. -/
theorem skip (t : Token) (rest : List Token) : Gives skipToken [t] rest () := by
  intro r hr
  obtain rfl : r.tokens.tail = rest := by rw [hr]; rfl
  exact ⟨r.size, rfl⟩

/-- To count the size of what was read takes no token. -/
theorem addSize (n : Nat) (rest : List Token) : Gives (Yaml.addSize n) [] rest () := by
  intro r hr
  obtain rfl : r.tokens = rest := hr
  exact ⟨r.size + n, rfl⟩

/-- A token that is passed in front of others. -/
theorem skip_cons {f : Unit → Reader β} (h : Gives (f ()) ts rest b) :
    Gives (skipToken >>= f) (t :: ts) rest b :=
  bind (skip t _) h

/-- So a count before a reader makes no difference to what it reads. -/
theorem addSize_bind {n : Nat} {f : Unit → Reader β} (h : Gives (f ()) ts rest b) :
    Gives (Yaml.addSize n >>= f) ts rest b :=
  bind_nil (addSize n _) h

/-- What the next token is can be looked up before it is read. -/
theorem peek_cons {f : Option Token → Reader β} (h : Gives (f (some t)) (t :: ts) rest b) :
    Gives (peekToken >>= f) (t :: ts) rest b :=
  bind_nil (peek _) h

end Gives

/-! ### Nodes -/

/-- The token begins a node without properties. -/
def Token.beginsNode : Token → Bool
  | .text .. | .flowSequenceStart | .blockMappingStart | .blockEntry => true
  | _ => false

/-- A node without anchor and tag is what its first token begins. -/
theorem gives_readNode (ht : t.beginsNode = true)
    (h : Gives (readContent fuel block indentless false none) (t :: ts) rest n) :
    Gives (readNode (fuel + 1) block indentless) (t :: ts) rest n := by
  have hproperties : Gives readProperties [] (t :: ts ++ rest) ⟨none, none⟩ := by
    rintro ⟨tokens, handles, names, anchors, size⟩ rfl
    refine ⟨size, ?_⟩
    cases t <;> simp only [Token.beginsNode, Bool.false_eq_true] at ht
    all_goals rfl
  rw [readNode]
  refine Gives.peek_cons ?_
  cases t <;> simp only [Token.beginsNode, Bool.false_eq_true] at ht
  all_goals exact Gives.bind_nil hproperties h

/-- **The tokens stand for the node**: it is read from them with so much more fuel than there are
tokens. A sequence at the column of the surrounding mapping ends where no further entry follows. -/
structure Stands (indentless : Bool) (depth : Nat) (ts : List Token) (n : Node) : Prop where
  begins : ∃ t more, ts = t :: more ∧ t.beginsNode = true ∧ (t = .blockEntry → indentless = true)
  gives : ∀ ⦃fuel : Nat⦄ ⦃rest : List Token⦄, ts.length + depth ≤ fuel →
    (indentless = true → rest.head? ≠ some .blockEntry) →
      Gives (readContent fuel true indentless false none) ts rest n

namespace Stands

/-- Nodes that nest no deeper than allowed nest no deeper than a greater depth allows. -/
theorem mono {depth' : Nat} (h : Stands indentless depth ts n) (hle : depth ≤ depth') :
    Stands indentless depth' ts n :=
  ⟨h.begins, fun _ _ hfuel => h.gives (Nat.le_trans (Nat.add_le_add_left hle _) hfuel)⟩

/-- A node has one token at least. -/
theorem length_pos (h : Stands indentless depth ts n) : 0 < ts.length := by
  obtain ⟨t, more, rfl, -⟩ := h.begins
  exact Nat.succ_pos _

/-- **A reader reads a node**, if it has fuel for the tokens and the depth, and if no entry follows
that would belong to it. -/
theorem gives_readNode (h : Stands indentless depth ts n) (hfuel : ts.length + depth < fuel)
    (hrest : indentless = true → rest.head? ≠ some .blockEntry) :
    Gives (readNode fuel true indentless) ts rest n := by
  obtain ⟨t, more, rfl, ht, -⟩ := h.begins
  obtain ⟨fuel, rfl⟩ : ∃ k, fuel = k + 1 := ⟨fuel - 1, by omega⟩
  exact Yaml.gives_readNode ht (h.gives (Nat.lt_succ_iff.mp hfuel) hrest)

/-- So it does where a node may be missing, if its first token does not say that it is. -/
theorem gives_readUnless {stops : List Token} (h : Stands indentless depth ts n)
    (hstops : ∀ t ∈ stops, t.beginsNode = true → t = .blockEntry ∧ indentless = false)
    (hfuel : ts.length + depth + 1 < fuel)
    (hrest : indentless = true → rest.head? ≠ some .blockEntry) :
    Gives (readUnless fuel stops true indentless) ts rest n := by
  obtain ⟨fuel, rfl⟩ : ∃ k, fuel = k + 1 := ⟨fuel - 1, by omega⟩
  have hnode := h.gives_readNode (Nat.lt_of_succ_lt_succ hfuel) hrest
  obtain ⟨t, more, rfl, ht, hentry⟩ := h.begins
  have hmem : t ∉ stops := fun hmem => by
    obtain ⟨rfl, hindentless⟩ := hstops t hmem ht
    exact absurd ((hentry rfl).symm.trans hindentless) nofun
  rw [readUnless]
  refine Gives.peek_cons ?_
  simp only [List.contains_eq_mem, hmem, decide_false, Bool.false_eq_true, if_false]
  exact hnode

/-- A text stands for itself. -/
theorem text (style : Style) (cs : List Char) (indentless : Bool) :
    Stands indentless 0 [.text style cs] (.text style none cs) := by
  refine ⟨⟨_, [], rfl, rfl, nofun⟩, fun fuel rest hfuel _ => ?_⟩
  obtain ⟨fuel, rfl⟩ : ∃ k, fuel = k + 1 := ⟨fuel - 1, by simp at hfuel; omega⟩
  rw [readContent]
  exact Gives.peek_cons (Gives.skip_cons (Gives.addSize_bind (Gives.pure _ rest)))

/-- Brackets without anything inside stand for a sequence without items. -/
theorem brackets (indentless : Bool) :
    Stands indentless 0 [.flowSequenceStart, .flowSequenceEnd] (.sequence []) := by
  refine ⟨⟨_, _, rfl, rfl, nofun⟩, fun fuel rest hfuel _ => ?_⟩
  obtain ⟨fuel, rfl⟩ : ∃ k, fuel = k + 2 := ⟨fuel - 2, by simp at hfuel; omega⟩
  have hitems : Gives (readFlowSequence (fuel + 1) true) [.flowSequenceEnd] rest [] := by
    rw [readFlowSequence]
    exact Gives.peek_cons (Gives.skip_cons (Gives.pure _ rest))
  rw [readContent]
  refine Gives.peek_cons (Gives.skip_cons (Gives.addSize_bind ?_))
  exact Gives.bind_pure Node.sequence hitems

end Stands

/-! ### Sequences -/

/-- The entries of a sequence without indentation are read one after another, up to the first token
that begins none. -/
theorem gives_readIndentless {tokens : α → List Token} {node : α → Node} {items : List α}
    (h : ∀ a ∈ items, Stands false depth (tokens a) (node a))
    (hfuel : (items.flatMap fun a => .blockEntry :: tokens a).length + depth + 1 < fuel)
    (hrest : rest.head? ≠ some .blockEntry) :
    Gives (readIndentless fuel) (items.flatMap fun a => .blockEntry :: tokens a) rest
      (items.map node) := by
  induction items generalizing fuel with
  | nil =>
    obtain ⟨fuel, rfl⟩ : ∃ k, fuel = k + 1 := ⟨fuel - 1, by omega⟩
    rw [readIndentless]
    refine Gives.bind_nil (Gives.peek rest) ?_
    split
    · next hhead => exact absurd hhead hrest
    · exact Gives.pure [] rest
  | cons a items ih =>
    obtain ⟨ha, hitems⟩ := List.forall_mem_cons.mp h
    rw [List.flatMap_cons, List.cons_append, List.length_cons, List.length_append] at hfuel
    obtain ⟨fuel, rfl⟩ : ∃ k, fuel = k + 1 := ⟨fuel - 1, by omega⟩
    rw [readIndentless, List.flatMap_cons, List.cons_append]
    refine Gives.peek_cons (Gives.skip_cons ?_)
    refine Gives.bind (ha.gives_readUnless ?_ (by omega) nofun) ?_
    · simp [Token.beginsNode]
    · exact Gives.bind_pure (node a :: ·) (ih hitems (by omega))

/-- Entries with their hyphens stand for a sequence. -/
theorem Stands.entries {tokens : α → List Token} {node : α → Node} {items : List α}
    (hne : items ≠ []) (h : ∀ a ∈ items, Stands false depth (tokens a) (node a)) :
    Stands true (depth + 3) (items.flatMap fun a => .blockEntry :: tokens a)
      (.sequence (items.map node)) := by
  obtain ⟨a, more, rfl⟩ := List.exists_cons_of_ne_nil hne
  refine ⟨⟨.blockEntry, _, rfl, rfl, fun _ => rfl⟩, fun fuel rest hfuel hrest => ?_⟩
  obtain ⟨fuel, rfl⟩ : ∃ k, fuel = k + 1 := ⟨fuel - 1, by omega⟩
  rw [readContent]
  refine Gives.peek_cons (Gives.addSize_bind ?_)
  exact Gives.bind_pure Node.sequence (gives_readIndentless h (by omega) (hrest rfl))

/-! ### Mappings -/

/-- A key with the tokens of its value and what they stand for. -/
structure Entry where
  key : List Char
  tokens : List Token
  value : Node

namespace Entry

/-- The tokens of a key and its value. -/
def run (e : Entry) : List Token :=
  .key :: .text .plain e.key :: .value :: e.tokens

/-- What the tokens of a key and its value stand for. -/
def nodes (e : Entry) : Node × Node :=
  (.text .plain none e.key, e.value)

end Entry

/-- The value after a colon is read as a node. -/
theorem gives_readBlockValue (h : Stands true depth ts n) (hfuel : ts.length + depth + 2 < fuel)
    (hrest : rest.head? ≠ some .blockEntry) :
    Gives (readBlockValue fuel) (.value :: ts) rest n := by
  obtain ⟨fuel, rfl⟩ : ∃ k, fuel = k + 1 := ⟨fuel - 1, by omega⟩
  rw [readBlockValue]
  refine Gives.peek_cons (Gives.skip_cons ?_)
  exact h.gives_readUnless (by simp [Token.beginsNode]) (by omega) fun _ => hrest

/-- The entries of a mapping are read one after another, up to the end of the block. -/
theorem gives_readBlockMapping {entries : List Entry}
    (h : ∀ e ∈ entries, Stands true depth e.tokens e.value)
    (hfuel : (entries.flatMap Entry.run).length + depth < fuel) :
    Gives (readBlockMapping fuel) (entries.flatMap Entry.run ++ [.blockEnd]) rest
      (entries.map Entry.nodes) := by
  induction entries generalizing fuel with
  | nil =>
    obtain ⟨fuel, rfl⟩ : ∃ k, fuel = k + 1 := ⟨fuel - 1, by omega⟩
    rw [readBlockMapping]
    exact Gives.peek_cons (Gives.skip_cons (Gives.pure [] rest))
  | cons e entries ih =>
    obtain ⟨he, hentries⟩ := List.forall_mem_cons.mp h
    have hpos := he.length_pos
    rw [List.flatMap_cons, List.length_append, Entry.run, List.length_cons, List.length_cons,
      List.length_cons] at hfuel
    obtain ⟨fuel, rfl⟩ : ∃ k, fuel = k + 1 := ⟨fuel - 1, by omega⟩
    have hfollows : (entries.flatMap Entry.run ++ [Token.blockEnd] ++ rest).head? ≠
        some .blockEntry := by
      cases entries <;> simp [Entry.run]
    have hkey : Gives (readUnless fuel [.key, .value, .blockEnd] true true) [.text .plain e.key]
        (.value :: e.tokens ++ (entries.flatMap Entry.run ++ [.blockEnd]) ++ rest)
        (.text .plain none e.key) :=
      (Stands.text .plain e.key true).gives_readUnless (by simp [Token.beginsNode])
        (by rw [List.length_singleton]; omega) fun _ => nofun
    have htokens : (e :: entries).flatMap Entry.run ++ [Token.blockEnd] =
        .key :: ([.text .plain e.key] ++
          (.value :: e.tokens ++ (entries.flatMap Entry.run ++ [.blockEnd]))) := by
      simp [Entry.run]
    rw [readBlockMapping, htokens]
    refine Gives.peek_cons (Gives.skip_cons (Gives.bind hkey ?_))
    refine Gives.bind (gives_readBlockValue he (by omega) hfollows) ?_
    have hmore : Gives (readBlockMapping fuel) (entries.flatMap Entry.run ++ [.blockEnd]) rest
        (entries.map Entry.nodes) := ih hentries (by omega)
    exact Gives.bind_pure ((.text .plain none e.key, e.value) :: ·) hmore

/-- Keys and values stand for a mapping. -/
theorem Stands.mapping {entries : List Entry} (indentless : Bool)
    (h : ∀ e ∈ entries, Stands true depth e.tokens e.value) :
    Stands indentless depth (.blockMappingStart :: (entries.flatMap Entry.run ++ [.blockEnd]))
      (.mapping (entries.map Entry.nodes)) := by
  refine ⟨⟨.blockMappingStart, _, rfl, rfl, nofun⟩, fun fuel rest hfuel _ => ?_⟩
  rw [List.length_cons, List.length_append, List.length_singleton] at hfuel
  obtain ⟨fuel, rfl⟩ : ∃ k, fuel = k + 1 := ⟨fuel - 1, by omega⟩
  rw [readContent]
  refine Gives.peek_cons (Gives.skip_cons (Gives.addSize_bind ?_))
  exact Gives.bind_pure Node.mapping (gives_readBlockMapping h (by omega))

/-! ### Documents -/

/-- **Tokens that stand for a node make a document of that node.** -/
theorem Document.ofTokens?_of_stands (h : Stands false depth ts n)
    (hdepth : depth ≤ 2 * ts.length + 7) :
    ∃ size, Document.ofTokens? ts = .ok ⟨some n, [], size⟩ := by
  have hnode : Gives (readNode (3 * ts.length + 8) true false) ts [] n :=
    h.gives_readNode (by omega) nofun
  obtain ⟨size, hread⟩ := hnode
    ⟨ts, [(['!'], asciiBytes ['!']), (['!', '!'], coreLead)], [], [], 0⟩ (List.append_nil ts).symm
  refine ⟨size, ?_⟩
  obtain ⟨t, more, rfl, ht, -⟩ := h.begins
  have hdocument : readDocument (3 * (t :: more).length + 8) ⟨t :: more, [], [], [], 0⟩ =
      readNode (3 * (t :: more).length + 8) true false
        ⟨t :: more, [(['!'], asciiBytes ['!']), (['!', '!'], coreLead)], [], [], 0⟩ := by
    cases t <;> simp only [Token.beginsNode, Bool.false_eq_true] at ht
    all_goals rfl
  have hrun : (readDocument (3 * (t :: more).length + 8)).run ⟨t :: more, [], [], [], 0⟩ =
      .ok (n, ⟨[], [(['!'], asciiBytes ['!']), (['!', '!'], coreLead)], [], [], size⟩) :=
    hdocument.trans hread
  rw [Document.ofTokens?, if_neg (by simp), hrun]
  rfl

end CidrCover.Yaml
