import CidrCover.Aggregation.Build
import CidrCover.Proofs.Aggregation.Budget
import CidrCover.Proofs.Aggregation.Soundness
import CidrCover.Proofs.Entry.Basic
import CidrCover.Proofs.Entry.Shape
import CidrCover.Proofs.Prefix.Network
import CidrCover.Proofs.Run
import CidrCover.Proofs.Terraform.Locals

/-!
# What a build does

A build takes the entries of the enabled sources through the filter, the reader, the reduction, the
check of the cover and the renderer. The entries that are read are those of the right shape
(`Config.shapedEntries`), every entry that can be read is among them, and the blocks always pass the
check. So there are three ways to fail, and they are looked for in a fixed order.

* **The outcome of a build** (`Config.build_outcome`): the first entry that cannot be read, then the
  budget, then the name of the variable, and otherwise a file as in `Config.Built`.
-/

namespace CidrCover

/-- Each prefix of a list lies in a block of its aggregation. -/
theorem Aggregation.exists_block_contains {ps : List Prefix} {p : Prefix} (hp : p ∈ ps) (n : Nat) :
    ∃ b ∈ (specified ps n).blocks, b.contains p := by
  obtain ⟨b, hb, hbp⟩ := ((SetReduction.serves_ofPrefixes ps).reduce n).holds p hp
  exact ⟨b, Antichain.mem_toList.mpr hb, hbp⟩

/-- The blocks of an aggregation pass the check. -/
theorem checkCover_specified (ps : List Prefix) (n : Nat) :
    checkCover (Aggregation.specified ps n).blocks ps = .ok () := by
  unfold checkCover
  rw [if_pos (covers_iff.mpr fun p hp => Aggregation.exists_block_contains hp n)]

/-- A budget of zero is refused. -/
theorem outcome_aggregatePrefixes_zero (ps : List Prefix) :
    (aggregatePrefixes ps 0).outcome = .error ⟨[], .zeroTarget⟩ := rfl

namespace Config

variable {c : Config} {n : Nat} {e : String} {flaw : Malformation} {ps : List Prefix}

/-- The entries of the enabled sources without blanks around them, as far as they are four numerals
with dots between them, a slash and one more numeral. -/
def shapedEntries (c : Config) : List String :=
  (c.enabledCidrs.map Text.trimmed).filter fun e => Entry.Shaped e.toList

/-- What a file and its aggregation have to be. -/
structure Built (c : Config) (n : Nat) (a : Aggregation) (content : String) : Prop where
  /-- Every enabled entry that can be read lies in a block. -/
  covered : ∀ e ∈ c.enabledCidrs, ∀ p, Prefix.parse e = .ok p → ∃ b ∈ a.blocks, b.contains p
  within : a.blocks.length ≤ n
  inputCount : a.stats.inputCount = c.shapedEntries.length
  /-- The list in the file is that of the blocks. -/
  content : Terraform.LocalsFile content (a.blocks.map Prefix.text) c.variableName
    Terraform.generatorName

/-! ### From the entries to the file -/

/-- The filter lets the shaped entries through. -/
theorem accepted_sift_enabledCidrs (c : Config) :
    (Entry.sift c.enabledCidrs).accepted = c.shapedEntries :=
  Entry.accepted_sift c.enabledCidrs

/-- Nothing that can be read is passed over. -/
theorem trimmed_mem_shapedEntries {p : Prefix} (he : e ∈ c.enabledCidrs)
    (hp : Prefix.parse e = .ok p) : Text.trimmed e ∈ c.shapedEntries := by
  rw [← accepted_sift_enabledCidrs]
  exact Entry.mem_accepted_of_parse he hp

/-- The first entry that cannot be read is reported, whatever else is wrong. -/
theorem outcome_build_of_firstFlaw (h : Entry.FirstFlaw c.shapedEntries e flaw) :
    (c.build n).outcome = .error ⟨[], .malformed e flaw⟩ := by
  simp [build, siftEntries, accepted_sift_enabledCidrs, h.parseAll_eq, Except.bind]

/-- If all entries can be read then a budget of zero is reported. -/
theorem outcome_build_zero (h : Entry.parseAll c.shapedEntries = .ok ps) :
    (c.build 0).outcome = .error ⟨[], .zeroTarget⟩ := by
  simp [build, siftEntries, accepted_sift_enabledCidrs, h, outcome_aggregatePrefixes_zero,
    Except.bind]

/-- Past the budget only the renderer can fail. -/
theorem outcome_build_of_pos (h : Entry.parseAll c.shapedEntries = .ok ps) (hn : 1 ≤ n) :
    (c.build n).outcome =
      (Run.ofFault (Terraform.renderLocals (Aggregation.specified ps n).texts c.variableName
        Terraform.generatorName)).outcome.map fun content =>
          (Aggregation.specified ps n, content) := by
  simp [build, siftEntries, accepted_sift_enabledCidrs, h, outcome_aggregatePrefixes ps hn,
    checkCover_specified, Except.bind, Except.map]

/-- The name of the generator is on a single line. -/
theorem singleLine_generatorName : Terraform.SingleLine Terraform.generatorName := by
  unfold Terraform.SingleLine
  decide

/-- If the budget is not zero either then a variable that is no identifier is reported. -/
theorem outcome_build_of_not_identifier (h : Entry.parseAll c.shapedEntries = .ok ps) (hn : 1 ≤ n)
    (hname : ¬ Terraform.Identifier c.variableName) :
    (c.build n).outcome = .error ⟨[], .variableName c.variableName⟩ := by
  rw [outcome_build_of_pos h hn, Terraform.renderLocals_of_not_identifier hname]
  rfl

/-- Otherwise there is a file for the blocks of the aggregation. -/
theorem outcome_build_of_identifier (h : Entry.parseAll c.shapedEntries = .ok ps) (hn : 1 ≤ n)
    (hname : Terraform.Identifier c.variableName) :
    (c.build n).outcome = .ok (Aggregation.specified ps n, Terraform.localsText
      (Aggregation.specified ps n).texts c.variableName Terraform.generatorName) := by
  rw [outcome_build_of_pos h hn, Terraform.renderLocals_of_valid hname singleLine_generatorName]
  rfl

/-- A build puts out nothing. -/
theorem silent_build (c : Config) (n : Nat) : (c.build n).Silent := by
  have hsift : (siftEntries c.enabledCidrs).Silent :=
    (Run.silent_noteAll _).bind fun _ => Run.silent_pure _
  refine hsift.bind fun sifted => (Run.silent_noteIf _ _).bind fun _ => ?_
  refine (Run.silent_ofFault _).bind fun ps => (silent_aggregatePrefixes ps n).bind fun a => ?_
  exact (Run.silent_ofFault _).bind fun _ => (Run.silent_ofFault _).bind fun _ => Run.silent_pure _

/-- The file of an aggregation is as it has to be. -/
theorem built_specified (h : Entry.parseAll c.shapedEntries = .ok ps) (hn : 1 ≤ n)
    (hname : Terraform.Identifier c.variableName) :
    c.Built n (Aggregation.specified ps n) (Terraform.localsText
      (Aggregation.specified ps n).texts c.variableName Terraform.generatorName) where
  covered := by
    intro e he p hp
    have hread := Entry.mem_of_parseAll h (trimmed_mem_shapedEntries he hp)
      ((Prefix.parse_trimmed e).trans hp)
    exact Aggregation.exists_block_contains hread n
  within := by
    have hlength := Antichain.length_toList ((SetReduction.ofPrefixes ps).reduce n).blocks
    rw [SetReduction.card_reduce hn] at hlength
    exact Nat.le_trans (Nat.le_of_eq hlength) (Nat.min_le_left _ _)
  inputCount := Entry.length_of_parseAll h
  content := Terraform.localsFile_localsText hname singleLine_generatorName

/-! ### All outcomes -/

/-- **The outcome of a build**: the three ways to fail in their order, and what there is if none
applies. -/
theorem build_outcome (c : Config) (n : Nat) :
    (∀ e flaw, Entry.FirstFlaw c.shapedEntries e flaw →
      (c.build n).outcome = .error ⟨[], .malformed e flaw⟩) ∧
    ((∀ e ∈ c.shapedEntries, Entry.Readable e) →
      (n = 0 → (c.build n).outcome = .error ⟨[], .zeroTarget⟩) ∧
      (1 ≤ n → ¬ Terraform.Identifier c.variableName →
        (c.build n).outcome = .error ⟨[], .variableName c.variableName⟩) ∧
      (1 ≤ n → Terraform.Identifier c.variableName →
        ∃ a content, (c.build n).outcome = .ok (a, content) ∧ c.Built n a content)) ∧
    ∀ contexts, (c.build n).outcome ≠ .error ⟨contexts, .uncovered⟩ := by
  refine ⟨fun e flaw h => outcome_build_of_firstFlaw h, fun h => ?_, fun contexts => ?_⟩
  · obtain ⟨ps, hps⟩ := Entry.exists_parseAll_eq_ok h
    refine ⟨?_, ?_, ?_⟩
    · rintro rfl
      exact outcome_build_zero hps
    · intro hn hname
      exact outcome_build_of_not_identifier hps hn hname
    · intro hn hname
      exact ⟨_, _, outcome_build_of_identifier hps hn hname, built_specified hps hn hname⟩
  -- the cases above are all that there are
  · rcases Entry.readable_or_firstFlaw c.shapedEntries with h | ⟨e, flaw, h⟩
    · obtain ⟨ps, hps⟩ := Entry.exists_parseAll_eq_ok h
      rcases Nat.eq_zero_or_pos n with rfl | hn
      · simp [outcome_build_zero hps]
      · by_cases hname : Terraform.Identifier c.variableName
        · simp [outcome_build_of_identifier hps hn hname]
        · simp [outcome_build_of_not_identifier hps hn hname]
    · simp [outcome_build_of_firstFlaw h]

/-- An entry whose length is out of range comes before a budget of zero, that comes before a name
that begins with a digit, and with nothing wrong there is a file. -/
theorem build_outcome_of_entries :
    Entry.FirstFlaw
        (shapedEntries ⟨60, "out.tf", "1st", [⟨"a", true, [" 10.0.0.9/8", "10.0.0.0/33"]⟩]⟩)
        "10.0.0.0/33" .lengthRange ∧
      (build ⟨60, "out.tf", "1st", [⟨"a", true, [" 10.0.0.9/8", "10.0.0.0/33"]⟩]⟩ 0).outcome =
        .error ⟨[], .malformed "10.0.0.0/33" .lengthRange⟩ ∧
      (∀ e ∈ shapedEntries ⟨60, "out.tf", "1st", [⟨"a", true, [" 10.0.0.9/8", "::1/128"]⟩]⟩,
        Entry.Readable e) ∧
      (build ⟨60, "out.tf", "1st", [⟨"a", true, [" 10.0.0.9/8", "::1/128"]⟩]⟩ 0).outcome =
        .error ⟨[], .zeroTarget⟩ ∧
      1 ≤ 1 ∧ ¬ Terraform.Identifier "1st" ∧
      (build ⟨60, "out.tf", "1st", [⟨"a", true, [" 10.0.0.9/8", "::1/128"]⟩]⟩ 1).outcome =
        .error ⟨[], .variableName "1st"⟩ ∧
      Terraform.Identifier "cidrs" ∧
      ∃ a content,
        (build ⟨60, "out.tf", "cidrs", [⟨"a", true, [" 10.0.0.9/8", "::1/128"]⟩]⟩ 1).outcome =
          .ok (a, content) ∧
        Built ⟨60, "out.tf", "cidrs", [⟨"a", true, [" 10.0.0.9/8", "::1/128"]⟩]⟩ 1 a content := by
  have hread : ∀ e ∈ ["10.0.0.9/8"], Entry.Readable e := List.forall_mem_singleton.mpr ⟨_, rfl⟩
  have hfirst : Entry.FirstFlaw
      (shapedEntries ⟨60, "out.tf", "1st", [⟨"a", true, [" 10.0.0.9/8", "10.0.0.0/33"]⟩]⟩)
      "10.0.0.0/33" .lengthRange := ⟨["10.0.0.9/8"], [], by decide +kernel, hread, rfl⟩
  have hentries : ∀ name,
      shapedEntries ⟨60, "out.tf", name, [⟨"a", true, [" 10.0.0.9/8", "::1/128"]⟩]⟩ =
        ["10.0.0.9/8"] := by
    intro name
    show ([" 10.0.0.9/8", "::1/128"].map Text.trimmed).filter _ = _
    decide +kernel
  have hall : ∀ name,
      ∀ e ∈ shapedEntries ⟨60, "out.tf", name, [⟨"a", true, [" 10.0.0.9/8", "::1/128"]⟩]⟩,
        Entry.Readable e := by
    intro name
    rwa [hentries]
  have hdigit : ¬ Terraform.Identifier "1st" := mt Terraform.isIdentifier_iff.mpr (by decide)
  have hname : Terraform.Identifier "cidrs" := Terraform.isIdentifier_iff.mp (by decide)
  exact ⟨hfirst, (build_outcome _ 0).1 _ _ hfirst, hall "1st",
    ((build_outcome _ 0).2.1 (hall "1st")).1 rfl, Nat.le_refl 1, hdigit,
    ((build_outcome _ 1).2.1 (hall "1st")).2.1 (Nat.le_refl 1) hdigit, hname,
    ((build_outcome _ 1).2.1 (hall "cidrs")).2.2 (Nat.le_refl 1) hname⟩

end Config

end CidrCover
