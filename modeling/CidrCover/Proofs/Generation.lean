import CidrCover.Aggregation.Build
import CidrCover.Proofs.Config.Build
import CidrCover.Proofs.Config.Files
import CidrCover.Proofs.Except

/-!
# What a generation does to the files

A generation writes once, at its end, and what it writes has been built from the configuration as it
was before (`Planned`). If anything before that fails, the tree is the one that there was, and so it
is after a dry run, which puts out the text that would have been written (`generate_cases`). A
generation puts that out when nothing can fail any more (`printsLast_generate`).
-/

namespace CidrCover.GenerateRequest

variable {q : GenerateRequest} {t : FileTree} {file : GeneratedFile}

/-- The file is the one that the configuration of the request asks for, with what the request says
otherwise. -/
def Planned (q : GenerateRequest) (t : FileTree) (path content : String) : Prop :=
  ∃ c a, (Config.loadOrBuiltIn t q.config).outcome = .ok c ∧
    (c.build (q.budget.getD c.maxBlocks)).outcome = .ok (a, content) ∧
    path = q.outputFile.getD c.outputFile

/-- The file is built if its configuration is found and aggregated. -/
theorem outcome_plan_eq_ok_iff :
    (q.plan t).outcome = .ok file ↔ q.Planned t file.path file.content := by
  unfold plan Planned
  cases hload : (Config.loadOrBuiltIn t q.config).outcome with
  | error f => simp [hload, Except.mapError, Except.bind]
  | ok c =>
    cases hbuild : (c.build (q.budget.getD c.maxBlocks)).outcome with
    | error f => simp [hload, hbuild, Except.mapError, Except.bind]
    | ok built =>
      obtain ⟨a, content⟩ := built
      obtain ⟨path, content'⟩ := file
      simp [hload, hbuild, Except.mapError, Except.bind, summary]
      grind

/-- To build the file puts out nothing. -/
theorem silent_plan (q : GenerateRequest) (t : FileTree) : (q.plan t).Silent := by
  have hsummary (s : Stats) : (summary s).Silent :=
    (Run.silent_noteIf _ _).bind fun _ => (Run.silent_note _).bind fun _ => Run.silent_note _
  have hload := (Config.silent_loadOrBuiltIn t q.config).within (.loadConfig q.config)
  refine hload.bind fun c => (Run.silent_note _).bind fun _ => ?_
  exact (Config.silent_build c _).bind fun built => (hsummary _).bind fun _ => Run.silent_pure _

/-- To put a file in its place puts out nothing. -/
theorem silent_deliver (t : FileTree) (file : GeneratedFile) : (deliver t file).2.Silent :=
  (Run.silent_ofFailure _).bind fun _ => Run.silent_note _

/-- If the file cannot be built, then nothing is written. -/
theorem generate_of_plan_error {f : Failure} (h : (q.plan t).outcome = .error f) :
    (q.generate t).1 = t ∧ (q.generate t).2.outcome = .error f := by
  simp [generate, h, Except.bind]

/-- In a dry run the file is put out as it was built. -/
theorem generate_of_dryRun (hdry : q.dryRun = true) (h : (q.plan t).outcome = .ok file) :
    q.generate t = (t, (q.plan t).bind fun file => Run.print file.content) := by
  simp only [generate, h, hdry, if_true]

/-- Otherwise it is put in its place. -/
theorem generate_of_writing (hdry : q.dryRun = false) (h : (q.plan t).outcome = .ok file) :
    q.generate t = ((deliver t file).1, (q.plan t).bind fun _ => (deliver t file).2) := by
  simp only [generate, h, hdry, Bool.false_eq_true, if_false]

/-- A generation prints at its end, when nothing can fail any more. -/
theorem printsLast_generate (q : GenerateRequest) (t : FileTree) :
    (q.generate t).2.PrintsLast := by
  have hsilent := silent_plan q t
  cases h : (q.plan t).outcome with
  | error f =>
    have heq : (q.generate t).2 = (q.plan t).bind fun _ => Run.ok () := by
      simp only [generate, h]
    rw [heq]
    exact hsilent.printsLast_bind fun _ _ => (Run.silent_ok ()).printsLast
  | ok file =>
    cases hdry : q.dryRun with
    | true =>
      rw [generate_of_dryRun hdry h]
      exact hsilent.printsLast_bind fun file _ => Run.printsLast_print file.content
    | false =>
      rw [generate_of_writing hdry h]
      exact hsilent.printsLast_bind fun _ _ => (silent_deliver t file).printsLast

/-- What a dry run comes to, once the file is built. -/
theorem generate_dryRun_eq (hdry : q.dryRun = true) (h : (q.plan t).outcome = .ok file) :
    (q.generate t).1 = t ∧ (q.generate t).2.outcome = .ok () ∧
      (q.generate t).2.output = file.content := by
  rw [generate_of_dryRun hdry h]
  refine ⟨rfl, ?_, ?_⟩
  · rw [Run.outcome_chain, h]
    rfl
  · exact ((silent_plan q t).output_bind h).trans (Run.output_print _)

/-- What a generation that writes comes to, once the file is built. -/
theorem generate_writing_eq (hdry : q.dryRun = false) (h : (q.plan t).outcome = .ok file) :
    (q.generate t).1 = (t.replaceFile file.path file.content).1 ∧
      (q.generate t).2.outcome = (t.replaceFile file.path file.content).2 ∧
      (q.generate t).2.output = "" := by
  rw [generate_of_writing hdry h]
  refine ⟨rfl, ?_, ?_⟩
  · rw [Run.outcome_chain, h]
    cases hwritten : (t.replaceFile file.path file.content).2 with
    | error f => simp [deliver, hwritten, Except.bind]
    | ok u => simp [deliver, hwritten, Except.bind]
  · exact ((silent_plan q t).output_bind h).trans (silent_deliver t file).output_eq

/-- A dry run leaves the tree as it is. -/
theorem generate_fst_of_dryRun (hdry : q.dryRun = true) : (q.generate t).1 = t := by
  cases h : (q.plan t).outcome with
  | error f => exact (generate_of_plan_error h).1
  | ok file => exact (generate_dryRun_eq hdry h).1

/-- What a generation can end in. -/
theorem generate_cases (q : GenerateRequest) (t : FileTree) :
    (∃ f, (q.generate t).2.outcome = .error f ∧ t.Grows (q.generate t).1) ∨
    ∃ path content, q.Planned t path content ∧ (q.generate t).2.outcome = .ok () ∧
      (q.dryRun = true ∧ (q.generate t).2.output = content ∧ (q.generate t).1 = t ∨
        q.dryRun = false ∧ (q.generate t).2.output = "" ∧
          t.FileReplaced (q.generate t).1 path content) := by
  cases h : (q.plan t).outcome with
  | error f =>
    obtain ⟨htree, houtcome⟩ := generate_of_plan_error h
    rw [htree]
    exact Or.inl ⟨f, houtcome, FileTree.Grows.refl t⟩
  | ok file =>
    have hplanned := outcome_plan_eq_ok_iff.mp h
    cases hdry : q.dryRun with
    | true =>
      obtain ⟨htree, houtcome, houtput⟩ := generate_dryRun_eq hdry h
      exact Or.inr ⟨_, _, hplanned, houtcome, Or.inl ⟨rfl, houtput, htree⟩⟩
    | false =>
      obtain ⟨htree, houtcome, houtput⟩ := generate_writing_eq hdry h
      rw [htree]
      cases hwritten : (t.replaceFile file.path file.content).2 with
      | error f =>
        rw [hwritten] at houtcome
        exact Or.inl ⟨f, houtcome, FileTree.replaceFile_error hwritten⟩
      | ok u =>
        rw [hwritten] at houtcome
        exact Or.inr ⟨_, _, hplanned, houtcome,
          Or.inr ⟨rfl, houtput, FileTree.replaceFile_ok hwritten⟩⟩

/-- A generation leaves a rooted tree. -/
theorem rooted_generate (h : t.Rooted) (q : GenerateRequest) : (q.generate t).1.Rooted := by
  cases hplan : (q.plan t).outcome with
  | error f => rwa [(generate_of_plan_error hplan).1]
  | ok file =>
    cases hdry : q.dryRun with
    | true => rwa [(generate_dryRun_eq hdry hplan).1]
    | false =>
      rw [(generate_writing_eq hdry hplan).1]
      exact h.replaceFile _ _

end CidrCover.GenerateRequest
