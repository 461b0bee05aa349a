import CidrCover.Config.Basic
import CidrCover.Proofs.Except
import CidrCover.Proofs.Terraform.Locals

/-!
# What a check finds

A configuration is checked in one pass, which stops at the first violation and remembers the names
that it has seen. The rules themselves know of no order and no memory: `Config.Valid` lists them,
and asks that the names of the sources are pairwise different. The two meet in the notion of a
source that is *unfit* after those before it: its name is blank, or one of them has it. A list keeps
the rules just if no source is unfit in its place (`wellNamed_or_firstUnfit`), and what the pass
remembers is the names of the sources that it has passed (`checkSources_append`).

* **A check decides the rules** (`Config.check_decides`): it succeeds on the configurations that are
  valid, and reports of every other one the first violation.
-/

namespace CidrCover

/-! ### Names of sources -/

/-- Nothing is left of the name when it is trimmed. -/
def Source.Unnamed (s : Source) : Prop :=
  Text.trimmed s.name = ""

namespace Config

variable {sources before after : List Source} {s : Source} {seen : List String}

/-- No name is blank, and no two sources have one name. -/
structure WellNamed (sources : List Source) : Prop where
  named : ∀ s ∈ sources, ¬ s.Unnamed
  distinct : sources.Pairwise fun s t => s.name ≠ t.name

/-- The name of a source is blank, or it is that of an earlier one. -/
def Unfit (before : List Source) (s : Source) : Prop :=
  s.Unnamed ∨ ∃ t ∈ before, t.name = s.name

/-- The first source of a list that is unfit after those before it. -/
structure FirstUnfit (sources before : List Source) (s : Source) : Prop where
  place : ∃ after, sources = before ++ s :: after
  unfit : Unfit before s
  first : ∀ before' t after', before = before' ++ t :: after' → ¬ Unfit before' t

/-- Without sources nothing is wrong with their names. -/
theorem wellNamed_nil : WellNamed [] :=
  ⟨List.forall_mem_nil _, List.Pairwise.nil⟩

/-- One more source is well named if it is not unfit after the others. -/
theorem wellNamed_append_singleton :
    WellNamed (before ++ [s]) ↔ WellNamed before ∧ ¬ Unfit before s := by
  have hunfit : ¬ Unfit before s ↔ ¬ s.Unnamed ∧ ∀ t ∈ before, t.name ≠ s.name := by
    rw [Unfit, not_or, not_exists]
    simp only [not_and]
  rw [hunfit]
  constructor
  · rintro ⟨hnamed, hdistinct⟩
    rw [List.pairwise_append] at hdistinct
    obtain ⟨hbefore, -, hlast⟩ := hdistinct
    rw [List.forall_mem_append] at hnamed
    exact ⟨⟨hnamed.1, hbefore⟩, hnamed.2 s List.mem_cons_self,
      fun t ht => hlast t ht s List.mem_cons_self⟩
  · rintro ⟨⟨hnamed, hdistinct⟩, hs, hlast⟩
    refine ⟨List.forall_mem_append.mpr ⟨hnamed, List.forall_mem_singleton.mpr hs⟩, ?_⟩
    rw [List.pairwise_append]
    refine ⟨hdistinct, List.pairwise_singleton _ _, fun t ht => ?_⟩
    exact List.forall_mem_singleton.mpr (hlast t ht)

/-- Where all names are as they have to be, no source is unfit in its place. -/
theorem WellNamed.not_unfit (h : WellNamed (before ++ s :: after)) : ¬ Unfit before s := by
  obtain ⟨hnamed, hdistinct⟩ := h
  rintro (hs | ⟨t, ht, hts⟩)
  · exact hnamed s (List.mem_append_right _ List.mem_cons_self) hs
  · exact (List.pairwise_append.mp hdistinct).2.2 t ht s List.mem_cons_self hts

/-- All names are as they have to be, or some source is the first that is unfit in its place. -/
theorem wellNamed_or_firstUnfit (sources : List Source) :
    WellNamed sources ∨ ∃ before s, FirstUnfit sources before s := by
  induction sources using List.reverseRecOn with
  | nil => exact Or.inl wellNamed_nil
  | append_singleton before s ih =>
    rcases ih with hbefore | ⟨before', t, ⟨after, rfl⟩, hunfit, hfirst⟩
    · by_cases hs : Unfit before s
      · refine Or.inr ⟨before, s, ⟨[], rfl⟩, hs, ?_⟩
        rintro before' t after rfl
        exact hbefore.not_unfit
      · exact Or.inl (wellNamed_append_singleton.mpr ⟨hbefore, hs⟩)
    · exact Or.inr ⟨before', t, ⟨after ++ [s], by simp⟩, hunfit, hfirst⟩

/-- The sources before the first unfit one are as they have to be. -/
theorem FirstUnfit.wellNamed (h : FirstUnfit sources before s) : WellNamed before := by
  rcases wellNamed_or_firstUnfit before with hbefore | ⟨before', t, ⟨after, hplace⟩, hunfit, -⟩
  · exact hbefore
  · exact absurd hunfit (h.first before' t after hplace)

/-! ### The pass over the sources -/

/-- A name is blank if there is nothing left after trimming. -/
theorem isEmpty_trim_iff : (Text.trim s.name.toList).isEmpty = true ↔ s.Unnamed := by
  rw [List.isEmpty_iff, Source.Unnamed, Text.trimmed, ← String.toList_inj, String.toList_ofList]
  rfl

/-- A source without a name is refused. -/
theorem checkSources_cons_of_unnamed (h : s.Unnamed) (after : List Source) :
    checkSources seen (s :: after) = .error .blankSourceName := by
  rw [checkSources, if_pos (isEmpty_trim_iff.mpr h)]

/-- A source whose name has been seen is refused. -/
theorem checkSources_cons_of_mem (h : ¬ s.Unnamed) (hs : s.name ∈ seen) (after : List Source) :
    checkSources seen (s :: after) = .error (.duplicateSourceName s.name) := by
  rw [checkSources, if_neg (mt isEmpty_trim_iff.mp h), if_pos (List.contains_iff_mem.mpr hs)]

/-- Any other source is passed, and its name has been seen from then on. -/
theorem checkSources_cons (h : ¬ s.Unnamed) (hs : s.name ∉ seen) (after : List Source) :
    checkSources seen (s :: after) = checkSources (s.name :: seen) after := by
  rw [checkSources, if_neg (mt isEmpty_trim_iff.mp h), if_neg (mt List.contains_iff_mem.mp hs)]

/-- Sources that are as they have to be are passed, and their names are remembered. -/
theorem checkSources_append (h : WellNamed before) (after : List Source) :
    checkSources [] (before ++ after) =
      checkSources (before.map Source.name).reverse after := by
  induction before using List.reverseRecOn generalizing after with
  | nil => rfl
  | append_singleton before s ih =>
    obtain ⟨hbefore, hs⟩ := wellNamed_append_singleton.mp h
    obtain ⟨hnamed, hnew⟩ := not_or.mp hs
    have hnotMem : s.name ∉ (before.map Source.name).reverse := by
      rw [List.mem_reverse, List.mem_map]
      exact hnew
    rw [List.append_assoc, ih hbefore, List.singleton_append, checkSources_cons hnamed hnotMem,
      List.map_append, List.reverse_append]
    rfl

/-- Well-named sources pass. -/
theorem checkSources_of_wellNamed (h : WellNamed sources) : checkSources [] sources = .ok () := by
  have hall := checkSources_append h []
  rwa [List.append_nil] at hall

/-- The first unfit source is the one reported, as blank if it is that too. -/
theorem FirstUnfit.checkSources_of_unnamed (h : FirstUnfit sources before s) (hs : s.Unnamed) :
    checkSources [] sources = .error .blankSourceName := by
  obtain ⟨after, rfl⟩ := h.place
  rw [checkSources_append h.wellNamed, checkSources_cons_of_unnamed hs]

/-- If the first unfit source has a name then it is one that has been seen. -/
theorem FirstUnfit.checkSources_of_named (h : FirstUnfit sources before s) (hs : ¬ s.Unnamed) :
    checkSources [] sources = .error (.duplicateSourceName s.name) := by
  obtain ⟨after, rfl⟩ := h.place
  obtain ⟨t, ht, hts⟩ := h.unfit.resolve_left hs
  have hmem : s.name ∈ (before.map Source.name).reverse := by
    rw [List.mem_reverse, List.mem_map]
    exact ⟨t, ht, hts⟩
  rw [checkSources_append h.wellNamed, checkSources_cons_of_mem hs hmem]

/-! ### The rules -/

variable {c : Config} {f : Fault}

/-- The rules for a configuration. -/
structure Valid (c : Config) : Prop where
  target : 1 ≤ c.maxBlocks
  variableName : Terraform.Identifier c.variableName
  sources : WellNamed c.sources

/-- The first violation of the rules: of the target, then of the variable, then of the sources in
their order, where a name that is blank is reported as that and any other one is quoted. -/
inductive FirstViolation (c : Config) : Fault → Prop
  | target (h : c.maxBlocks = 0) : FirstViolation c .zeroTarget
  | variableName (ht : 1 ≤ c.maxBlocks) (h : ¬ Terraform.Identifier c.variableName) :
    FirstViolation c (.variableName c.variableName)
  | unnamed {before : List Source} {s : Source} (ht : 1 ≤ c.maxBlocks)
    (hv : Terraform.Identifier c.variableName) (h : FirstUnfit c.sources before s)
    (hs : s.Unnamed) : FirstViolation c .blankSourceName
  | repeated {before : List Source} {s : Source} (ht : 1 ≤ c.maxBlocks)
    (hv : Terraform.Identifier c.variableName) (h : FirstUnfit c.sources before s)
    (hs : ¬ s.Unnamed) : FirstViolation c (.duplicateSourceName s.name)

/-- A configuration is valid or violates some rule first. -/
theorem valid_or_firstViolation (c : Config) : c.Valid ∨ ∃ f, c.FirstViolation f := by
  rcases Nat.eq_zero_or_pos c.maxBlocks with ht | ht
  · exact Or.inr ⟨_, .target ht⟩
  by_cases hv : Terraform.Identifier c.variableName
  · rcases wellNamed_or_firstUnfit c.sources with hsources | ⟨before, s, h⟩
    · exact Or.inl ⟨ht, hv, hsources⟩
    · by_cases hs : s.Unnamed
      · exact Or.inr ⟨_, .unnamed ht hv h hs⟩
      · exact Or.inr ⟨_, .repeated ht hv h hs⟩
  · exact Or.inr ⟨_, .variableName ht hv⟩

/-! ### The check -/

/-- With target and variable in order, what is left is the pass over the sources. -/
theorem check_eq_checkSources (ht : 1 ≤ c.maxBlocks) (hv : Terraform.Identifier c.variableName) :
    c.check = checkSources [] c.sources := by
  rw [check, checkMaxBlocks, if_neg (Nat.not_lt.mpr ht), Except.ok_bind,
    Terraform.checkVariable_of_identifier hv, Except.ok_bind]

/-- A valid configuration passes. -/
theorem Valid.check_eq (h : c.Valid) : c.check = .ok () := by
  rw [check_eq_checkSources h.target h.variableName, checkSources_of_wellNamed h.sources]

/-- Any other configuration is refused for the rule that it violates first. -/
theorem FirstViolation.check_eq (h : c.FirstViolation f) : c.check = .error f := by
  cases h with
  | target h =>
    rw [check, checkMaxBlocks, h]
    rfl
  | variableName ht h =>
    rw [check, checkMaxBlocks, if_neg (Nat.not_lt.mpr ht), Except.ok_bind,
      Terraform.checkVariable_of_not h]
    rfl
  | unnamed ht hv h hs => rw [check_eq_checkSources ht hv, h.checkSources_of_unnamed hs]
  | repeated ht hv h hs => rw [check_eq_checkSources ht hv, h.checkSources_of_named hs]

/-- **A check decides the rules**, and reports the first violation of them. -/
theorem check_decides (c : Config) :
    (c.check = .ok () ↔ c.Valid) ∧ ∀ f, c.check = .error f ↔ c.FirstViolation f := by
  rcases valid_or_firstViolation c with hvalid | ⟨g, hg⟩
  · refine ⟨⟨fun _ => hvalid, Valid.check_eq⟩, fun f => ⟨fun h => ?_, FirstViolation.check_eq⟩⟩
    rw [hvalid.check_eq] at h
    exact absurd h nofun
  · refine ⟨⟨fun h => ?_, Valid.check_eq⟩, fun f => ⟨fun h => ?_, FirstViolation.check_eq⟩⟩
    · rw [hg.check_eq] at h
      exact absurd h nofun
    · rw [hg.check_eq] at h
      exact Except.error.inj h ▸ hg

-- the third source repeats the first one, though it is switched off; the second does not, for names
-- are compared untrimmed; the blank name comes after that
example :
    (check ⟨3, "out.tf", "cidrs",
        [⟨"a", true, []⟩, ⟨" a", true, []⟩, ⟨"a", false, []⟩, ⟨" ", true, []⟩]⟩).mapError
      Fault.messages = .error ["Duplicate source name 'a'"] := by
  decide

end Config

end CidrCover
