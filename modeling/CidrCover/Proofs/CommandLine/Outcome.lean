import CidrCover.CommandLine.Outcome
import CidrCover.Proofs.Aggregation.Listing
import CidrCover.Proofs.Config.Artifact
import CidrCover.Proofs.Config.Files
import CidrCover.Proofs.Generation

/-!
# There is no partial output

The program ends with status zero, and then its output is all that there is to be put out and its
files are written, or with another status, and then it has put out nothing and no file has changed.
A list is put out as a whole; a generated file is put out or written, and not both. That a run which
fails has put out nothing is a matter of order: every command prints with its last effect, past all
that can fail (`Invocation.printsLast_perform`).

* **There is no partial output** (`execute_whole`).
-/

namespace CidrCover

/-- A generated text has a first line at least. -/
theorem Terraform.localsText_ne_empty (entries : List String) (name generator : String) :
    localsText entries name generator ≠ "" := by
  intro h
  unfold localsText at h
  exact absurd (String.append_eq_empty_iff.mp h).2 (by decide)

/-- What is to be generated is never the empty text. -/
theorem GenerateRequest.Planned.content_ne_empty {q : GenerateRequest} {t : FileTree}
    {path content : String} (h : q.Planned t path content) : content ≠ "" := by
  obtain ⟨c, a, -, hbuild, -⟩ := h
  rw [Config.content_of_build hbuild]
  exact Terraform.localsText_ne_empty _ _ _

/-- The built-in configuration is built, with a budget that is not zero. -/
theorem Config.exists_build_builtIn {n : Nat} (hn : 1 ≤ n) :
    ∃ a content, (builtIn.build n).outcome = .ok (a, content) := by
  have hsome : ∀ e ∈ builtIn.enabledCidrs, (Prefix.parse e).toOption.isSome := by decide +kernel
  have hread : ∀ e ∈ builtIn.shapedEntries, Entry.Readable e := by
    intro e he
    obtain ⟨e', he', rfl⟩ := List.mem_map.mp (List.mem_filter.mp he).1
    have h := hsome e' he'
    cases hp : Prefix.parse e' with
    | error flaw => simp [hp, Except.toOption] at h
    | ok p => exact ⟨p, (Prefix.parse_trimmed e').trans hp⟩
  have hname : Terraform.Identifier builtIn.variableName :=
    Terraform.isIdentifier_iff.mp (by decide)
  obtain ⟨ps, hps⟩ := Entry.exists_parseAll_eq_ok hread
  exact ⟨_, _, outcome_build_of_identifier hps hn hname⟩

namespace CommandLine

variable {i : Invocation} {arguments : List String} {input : ByteArray} {t : FileTree}
  {f : Failure} {run : Run Unit} {log : Level} {e : UsageError}

/-! ### Status and output -/

/-- The files are as the run has left them. -/
@[simp] theorem Outcome.tree_ofRun : (ofRun log t run).tree = t := by
  unfold ofRun
  cases run.outcome with
  | error f => rfl
  | ok u => rfl

/-- The output is what the run has put out, however it ended. -/
@[simp] theorem Outcome.output_ofRun : (ofRun log t run).output = run.output := by
  unfold ofRun
  cases run.outcome with
  | error f => rfl
  | ok u => rfl

/-- The status is zero if the run has ended well. -/
theorem Outcome.status_ofRun_eq_zero_iff :
    (ofRun log t run).status = 0 ↔ run.outcome = .ok () := by
  cases h : run.outcome with
  | error f => simp [ofRun, h]
  | ok u => simp [ofRun, h]

/-- A usage error with another status than zero has no output and changes no file. -/
theorem Outcome.ofUsageError_of_status (h : (ofUsageError t e).status ≠ 0) :
    (ofUsageError t e).output = "" ∧ (ofUsageError t e).tree = t := by
  unfold ofUsageError at h ⊢
  by_cases hstatus : e.status = 0
  · simp [hstatus] at h
  · simp [hstatus]

/-- A command line that can be read has the outcome of its run. -/
theorem execute_of_parse (h : Invocation.parse arguments = .ok i) :
    execute arguments input t =
      Outcome.ofRun i.logLevel (i.perform input t).1 (i.perform input t).2 := by
  unfold execute
  rw [h]

/-- A command line that cannot be read has the outcome of the usage error. -/
theorem execute_of_usageError (h : Invocation.parse arguments = .error e) :
    execute arguments input t = Outcome.ofUsageError t e := by
  unfold execute
  rw [h]

/-! ### The commands -/

/-- What `generate` does. -/
theorem Invocation.perform_generate {budget : Option Nat} {outputFile : Option String}
    {dryRun : Bool} (h : i.command = .generate budget outputFile dryRun) :
    i.perform input t = GenerateRequest.generate ⟨i.config, budget, outputFile, dryRun⟩ t := by
  simp only [perform, h]

/-- What `aggregate` does. -/
theorem Invocation.perform_aggregate {entries : List String} {budget : Nat} {format : OutputFormat}
    (h : i.command = .aggregate entries budget format) :
    i.perform input t = (t, AggregateRequest.aggregate ⟨entries, budget, format⟩ input) := by
  simp only [perform, h]

/-- What `init-config` does. -/
theorem Invocation.perform_initConfig {force : Bool} (h : i.command = .initConfig force) :
    i.perform input t = Config.install t i.config force := by
  simp only [perform, h]

/-- Every command prints with its last effect, when nothing can fail any more. -/
theorem Invocation.printsLast_perform (i : Invocation) (input : ByteArray) (t : FileTree) :
    (i.perform input t).2.PrintsLast := by
  cases hcommand : i.command with
  | generate budget outputFile dryRun =>
    rw [perform_generate hcommand]
    exact GenerateRequest.printsLast_generate _ t
  | aggregate entries budget format =>
    rw [perform_aggregate hcommand]
    exact AggregateRequest.printsLast_aggregate _ input
  | initConfig force =>
    rw [perform_initConfig hcommand]
    exact (Config.silent_install t i.config force).printsLast
  | version =>
    simp only [perform, hcommand]
    exact Run.printsLast_print _

/-- A command that fails leaves the files alone. -/
theorem Invocation.sameFiles_of_error (h : (i.perform input t).2.outcome = .error f) :
    t.SameFiles (i.perform input t).1 := by
  cases hcommand : i.command with
  | generate budget outputFile dryRun =>
    rw [perform_generate hcommand] at h ⊢
    rcases GenerateRequest.generate_cases ⟨i.config, budget, outputFile, dryRun⟩ t with
      ⟨f', -, hgrows⟩ | ⟨path, content, -, hok, -⟩
    · exact hgrows.sameFiles
    · exact absurd (h.symm.trans hok) nofun
  | aggregate entries budget format =>
    rw [perform_aggregate hcommand]
    exact FileTree.SameFiles.refl t
  | initConfig force =>
    rw [perform_initConfig hcommand] at h ⊢
    rcases Config.install_cases t i.config force with ⟨f', -, hgrows⟩ | ⟨hok, -⟩
    · exact hgrows.sameFiles
    · exact absurd (h.symm.trans hok) nofun
  | version => simp [perform, hcommand] at h

/-! ### Whole outcomes -/

/-- If the status is not zero then nothing has been put out, and the files are as before. -/
theorem execute_of_status (hstatus : (execute arguments input t).status ≠ 0) :
    (execute arguments input t).output = "" ∧ t.SameFiles (execute arguments input t).tree := by
  cases hparse : Invocation.parse arguments with
  | error e =>
    rw [execute_of_usageError hparse] at hstatus ⊢
    obtain ⟨houtput, htree⟩ := Outcome.ofUsageError_of_status hstatus
    rw [htree]
    exact ⟨houtput, FileTree.SameFiles.refl t⟩
  | ok i =>
    rw [execute_of_parse hparse] at hstatus ⊢
    cases hrun : (i.perform input t).2.outcome with
    | ok u => exact absurd (Outcome.status_ofRun_eq_zero_iff.mpr hrun) hstatus
    | error f =>
      rw [Outcome.tree_ofRun, Outcome.output_ofRun]
      exact ⟨(i.printsLast_perform input t).output_of_error hrun,
        Invocation.sameFiles_of_error hrun⟩

/-- A list is all there is to put out, or there is none. -/
theorem execute_aggregate {entries : List String} {budget : Nat} {format : OutputFormat}
    (hparse : Invocation.parse arguments = .ok i)
    (hcommand : i.command = .aggregate entries budget format) :
    let q : AggregateRequest := ⟨entries, budget, format⟩
    let outcome := execute arguments input t
    (outcome.status = 0 ↔ 1 ≤ budget ∧
      (entries = [] → ∃ s, Text.decodeUtf8? input = some s) ∧
      ∀ all, q.allEntries input = .ok all → ∀ e ∈ all, Entry.Readable e) ∧
    (outcome.status = 0 → ∃ all ps a, q.allEntries input = .ok all ∧
      Entry.parseAll all = .ok ps ∧ (aggregatePrefixes ps budget).outcome = .ok a ∧
      outcome.output = format.write a.blocks) ∧
    outcome.tree = t := by
  intro q outcome
  have heq : outcome = _ := execute_of_parse hparse
  rw [Invocation.perform_aggregate hcommand] at heq
  rw [heq, Outcome.status_ofRun_eq_zero_iff, Outcome.output_ofRun]
  refine ⟨AggregateRequest.outcome_aggregate_eq_ok_iff, ?_, Outcome.tree_ofRun⟩
  intro hrun
  obtain ⟨all, ps, a, hall, hps, ha⟩ := AggregateRequest.stages_of_outcome hrun
  exact ⟨all, ps, a, hall, hps, ha, (AggregateRequest.output_aggregate hall hps ha).2⟩

/-- A generation has put out what was built, or has written it to its file. -/
theorem execute_generate {budget : Option Nat} {outputFile : Option String} {dryRun : Bool}
    (hparse : Invocation.parse arguments = .ok i)
    (hcommand : i.command = .generate budget outputFile dryRun)
    (hstatus : (execute arguments input t).status = 0) :
    ∃ path content,
      GenerateRequest.Planned ⟨i.config, budget, outputFile, dryRun⟩ t path content ∧
      content ≠ "" ∧
      (dryRun = true ∧ (execute arguments input t).output = content ∧
          (execute arguments input t).tree = t ∨
        dryRun = false ∧ (execute arguments input t).output = "" ∧
          t.FileReplaced (execute arguments input t).tree path content) := by
  rw [execute_of_parse hparse, Invocation.perform_generate hcommand] at hstatus ⊢
  have hrun := Outcome.status_ofRun_eq_zero_iff.mp hstatus
  rw [Outcome.tree_ofRun, Outcome.output_ofRun]
  rcases GenerateRequest.generate_cases ⟨i.config, budget, outputFile, dryRun⟩ t with
    ⟨f, hf, -⟩ | ⟨path, content, hplanned, -, hdone⟩
  · exact absurd (hrun.symm.trans hf) nofun
  · exact ⟨path, content, hplanned, hplanned.content_ne_empty, hdone⟩

/-- The output is what the run of the command has put out, and it has put it out at its end. -/
theorem execute_printsLast (hparse : Invocation.parse arguments = .ok i) :
    (execute arguments input t).output = (i.perform input t).2.output ∧
      (i.perform input t).2.PrintsLast := by
  rw [execute_of_parse hparse, Outcome.output_ofRun]
  exact ⟨rfl, i.printsLast_perform input t⟩

/-- **There is no partial output.** If the status is not zero then nothing has been put out, and all
regular files are as before. A list ends with status zero if its budget is not zero, all of its
entries can be read and the input, if they come from there, is a text; then the output is the list
of blocks of all entries, and the files are as they were in any case. A generation that ends with
status zero has put out what was built and left the files as they were, in a dry run, or has put out
nothing and written that text to its file, which is never empty. The output is what the run has put
out, whether it failed or not, and that is put out with the last effect of a run that ends well. -/
theorem execute_whole (arguments : List String) (input : ByteArray) (t : FileTree) :
    let outcome := execute arguments input t
    (outcome.status ≠ 0 → outcome.output = "" ∧ t.SameFiles outcome.tree) ∧
    (∀ i entries budget format, Invocation.parse arguments = .ok i →
      i.command = .aggregate entries budget format →
      let q : AggregateRequest := ⟨entries, budget, format⟩
      (outcome.status = 0 ↔ 1 ≤ budget ∧
        (entries = [] → ∃ s, Text.decodeUtf8? input = some s) ∧
        ∀ all, q.allEntries input = .ok all → ∀ e ∈ all, Entry.Readable e) ∧
      (outcome.status = 0 → ∃ all ps a, q.allEntries input = .ok all ∧
        Entry.parseAll all = .ok ps ∧ (aggregatePrefixes ps budget).outcome = .ok a ∧
        outcome.output = format.write a.blocks) ∧
      outcome.tree = t) ∧
    (∀ i budget outputFile dryRun, Invocation.parse arguments = .ok i →
      i.command = .generate budget outputFile dryRun → outcome.status = 0 →
      ∃ path content,
        GenerateRequest.Planned ⟨i.config, budget, outputFile, dryRun⟩ t path content ∧
        content ≠ "" ∧
        (dryRun = true ∧ outcome.output = content ∧ outcome.tree = t ∨
          dryRun = false ∧ outcome.output = "" ∧ t.FileReplaced outcome.tree path content)) ∧
    ∀ i, Invocation.parse arguments = .ok i →
      outcome.output = (i.perform input t).2.output ∧ (i.perform input t).2.PrintsLast := by
  intro outcome
  refine ⟨execute_of_status, ?_, ?_, fun i hparse => execute_printsLast hparse⟩
  · intro i entries budget format hparse hcommand
    exact execute_aggregate hparse hcommand
  · intro i budget outputFile dryRun hparse hcommand hstatus
    exact execute_generate hparse hcommand hstatus

/-- A dry run where there is no configuration puts out what is built from the built-in one. -/
theorem status_execute_dryRun :
    (execute ["generate", "--dry-run"] ByteArray.empty .empty).status = 0 := by
  have hparse : Invocation.parse ["generate", "--dry-run"] =
      .ok ⟨.generate none none true, "cidrcap.yaml", false, false⟩ := rfl
  obtain ⟨a, content, hbuild⟩ := Config.exists_build_builtIn (n := 60) (by decide)
  have hplanned : GenerateRequest.Planned ⟨"cidrcap.yaml", none, none, true⟩ .empty
      Config.builtIn.outputFile content := ⟨.builtIn, a, rfl, hbuild, rfl⟩
  have hplan : (GenerateRequest.plan ⟨"cidrcap.yaml", none, none, true⟩ .empty).outcome =
      .ok ⟨Config.builtIn.outputFile, content⟩ :=
    GenerateRequest.outcome_plan_eq_ok_iff.mpr hplanned
  have hrun := (GenerateRequest.generate_dryRun_eq rfl hplan).2.1
  rw [execute_of_parse hparse, Invocation.perform_generate rfl, Outcome.status_ofRun_eq_zero_iff]
  dsimp only
  exact hrun

/-- No arguments, a list that is the two halves of a block, and a dry run where there is nothing. -/
theorem execute_whole_of_arguments :
    ((execute [] ByteArray.empty .empty).status ≠ 0 ∧
      (execute [] ByteArray.empty .empty).output = "") ∧
    (Invocation.parse ["aggregate", "10.0.0.0/9", "10.128.0.0/9"] =
        .ok ⟨.aggregate ["10.0.0.0/9", "10.128.0.0/9"] 60 .text, "cidrcap.yaml", false, false⟩ ∧
      (execute ["aggregate", "10.0.0.0/9", "10.128.0.0/9"] ByteArray.empty .empty).status = 0 ∧
      ∃ ps a, (aggregatePrefixes ps 60).outcome = .ok a ∧
        (execute ["aggregate", "10.0.0.0/9", "10.128.0.0/9"] ByteArray.empty .empty).output =
          OutputFormat.text.write a.blocks) ∧
    Invocation.parse ["generate", "--dry-run"] =
        .ok ⟨.generate none none true, "cidrcap.yaml", false, false⟩ ∧
      (execute ["generate", "--dry-run"] ByteArray.empty .empty).status = 0 ∧
      (execute ["generate", "--dry-run"] ByteArray.empty .empty).output ≠ "" := by
  have hnone : (execute [] ByteArray.empty .empty).status ≠ 0 := by decide
  have hlist : Invocation.parse ["aggregate", "10.0.0.0/9", "10.128.0.0/9"] =
      .ok ⟨.aggregate ["10.0.0.0/9", "10.128.0.0/9"] 60 .text, "cidrcap.yaml", false, false⟩ := rfl
  have hdry : Invocation.parse ["generate", "--dry-run"] =
      .ok ⟨.generate none none true, "cidrcap.yaml", false, false⟩ := rfl
  have hread : ∀ e ∈ ["10.0.0.0/9", "10.128.0.0/9"], Entry.Readable e := by
    simp only [List.forall_mem_cons]
    exact ⟨⟨_, rfl⟩, ⟨_, rfl⟩, List.forall_mem_nil _⟩
  refine ⟨⟨hnone, ((execute_whole [] ByteArray.empty .empty).1 hnone).1⟩, ⟨hlist, ?_⟩, hdry,
    status_execute_dryRun, ?_⟩
  · obtain ⟨hstatus, houtput, -⟩ :=
      (execute_whole ["aggregate", "10.0.0.0/9", "10.128.0.0/9"] ByteArray.empty .empty).2.1
        _ _ _ _ hlist rfl
    have hzero := hstatus.mpr ⟨by decide, nofun, fun all hall => by cases hall; exact hread⟩
    obtain ⟨all, ps, a, -, -, ha, heq⟩ := houtput hzero
    exact ⟨hzero, ps, a, ha, heq⟩
  · obtain ⟨path, content, -, hne, ⟨-, houtput, -⟩ | ⟨hwrites, -⟩⟩ :=
      (execute_whole ["generate", "--dry-run"] ByteArray.empty .empty).2.2.1
        _ _ _ _ hdry rfl status_execute_dryRun
    · rwa [houtput]
    · exact absurd hwrites nofun

end CommandLine

end CidrCover
