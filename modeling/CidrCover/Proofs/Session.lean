import CidrCover.Proofs.Config.Files
import CidrCover.Proofs.Generation
import CidrCover.Session

/-!
# Sessions leave alone what they do not write

A step of a session either fails, and then all regular files are as before, or it writes the one
file that it is about, with the text that it is meant to hold (`Step.Writes`), or it only reads and
changes nothing. So it goes on from step to step: what a session does to the files can be read off
the steps that it takes, each at the tree that it finds.

* **Sessions are confined** (`performAll_confined`).
-/

namespace CidrCover.Step

variable {t : FileTree} {s : Step} {path content : String} {before after : List Step}

/-- The step only reads. -/
def readsOnly : Step → Bool
  | load _ | loadOrBuiltIn _ => true
  | generate q => q.dryRun
  | _ => false

/-- The text that a step writes, and where, if it finds the tree `t` and succeeds. -/
inductive Writes (t : FileTree) : Step → (path content : String) → Prop
  | replace (path content : String) : Writes t (.replace path content) path content
  | save (path : String) (c : Config) : Writes t (.save path c) path c.document
  | install (path : String) (force : Bool) :
    Writes t (.install path force) path Config.builtIn.document
  | generate {q : GenerateRequest} {path content : String} (hwrites : q.dryRun = false)
    (hplanned : q.Planned t path content) : Writes t (.generate q) path content

/-! ### One step -/

/-- A step that only reads leaves the tree as it is. -/
theorem perform_of_readsOnly (h : s.readsOnly = true) : (s.perform t).1 = t := by
  cases s with
  | load path => rfl
  | loadOrBuiltIn path => rfl
  | generate q => exact GenerateRequest.generate_fst_of_dryRun h
  | replace path content => exact absurd h nofun
  | save path c => exact absurd h nofun
  | install path force => exact absurd h nofun

/-- To write a file is to replace it as a whole. -/
theorem perform_replace (t : FileTree) (path content : String) :
    ((replace path content).perform t).1 = (t.replaceFile path content).1 ∧
      ((replace path content).perform t).2.outcome =
        (t.replaceFile path content).2.map fun _ => .done := by
  simp only [perform, true_and]
  rfl

/-- To write a configuration is to write its document. -/
theorem perform_save (t : FileTree) (path : String) (c : Config) :
    (save path c).perform t = (replace path c.document).perform t := by
  simp only [perform, Config.save]

/-- To write the built-in configuration is to install it. -/
theorem perform_install (t : FileTree) (path : String) (force : Bool) :
    ((install path force).perform t).1 = (Config.install t path force).1 ∧
      ((install path force).perform t).2.outcome =
        (Config.install t path force).2.outcome.map fun _ => .done := by
  simp only [perform]
  generalize Config.install t path force = installed
  obtain ⟨t', run⟩ := installed
  cases h : run.outcome with
  | error f => simp [h, Except.bind, Except.map]
  | ok u => simp [h, Except.bind, Except.map]

/-- **What a step can do**: fail and leave the files alone, or read and change nothing, or write the
text that it is about. -/
theorem perform_cases (t : FileTree) (s : Step) :
    (∃ f, (s.perform t).2.outcome = .error f ∧ t.Grows (s.perform t).1) ∨
    (∃ r, (s.perform t).2.outcome = .ok r) ∧
      (s.readsOnly = true ∧ (s.perform t).1 = t ∨
        ∃ path content, s.Writes t path content ∧
          t.FileReplaced (s.perform t).1 path content) := by
  cases s with
  | replace path content =>
    obtain ⟨htree, houtcome⟩ := perform_replace t path content
    rw [htree, houtcome]
    cases hwritten : (t.replaceFile path content).2 with
    | error f => exact Or.inl ⟨f, rfl, FileTree.replaceFile_error hwritten⟩
    | ok u =>
      exact Or.inr ⟨⟨.done, rfl⟩,
        Or.inr ⟨_, _, .replace path content, FileTree.replaceFile_ok hwritten⟩⟩
  | save path c =>
    obtain ⟨htree, houtcome⟩ := perform_replace t path c.document
    rw [perform_save, htree, houtcome]
    cases hwritten : (t.replaceFile path c.document).2 with
    | error f => exact Or.inl ⟨f, rfl, FileTree.replaceFile_error hwritten⟩
    | ok u =>
      exact Or.inr ⟨⟨.done, rfl⟩,
        Or.inr ⟨_, _, .save path c, FileTree.replaceFile_ok hwritten⟩⟩
  | install path force =>
    obtain ⟨htree, houtcome⟩ := perform_install t path force
    rw [htree, houtcome]
    rcases Config.install_cases t path force with ⟨f, hf, hgrows⟩ | ⟨hok, hreplaced⟩
    · exact Or.inl ⟨f, by rw [hf]; rfl, hgrows⟩
    · exact Or.inr ⟨⟨.done, by rw [hok]; rfl⟩, Or.inr ⟨_, _, .install path force, hreplaced⟩⟩
  | load path =>
    cases hload : Config.load t path with
    | error f => exact Or.inl ⟨f, by simp [perform, hload, Except.map], FileTree.Grows.refl t⟩
    | ok c => exact Or.inr ⟨⟨.loaded c, by simp [perform, hload, Except.map]⟩, Or.inl ⟨rfl, rfl⟩⟩
  | loadOrBuiltIn path =>
    cases hload : (Config.loadOrBuiltIn t path).outcome with
    | error f => exact Or.inl ⟨f, by simp [perform, hload, Except.bind], FileTree.Grows.refl t⟩
    | ok c => exact Or.inr ⟨⟨.loaded c, by simp [perform, hload, Except.bind]⟩, Or.inl ⟨rfl, rfl⟩⟩
  | generate q =>
    rcases GenerateRequest.generate_cases q t with ⟨f, hf, hgrows⟩ | ⟨path, content, hplanned, h⟩
    · exact Or.inl ⟨f, by simp [perform, hf, Except.bind], hgrows⟩
    · obtain ⟨hok, hdone⟩ := h
      refine Or.inr ⟨⟨.done, by simp [perform, hok, Except.bind]⟩, ?_⟩
      rcases hdone with ⟨hdry, -, htree⟩ | ⟨hwrites, -, hreplaced⟩
      · exact Or.inl ⟨hdry, htree⟩
      · exact Or.inr ⟨_, _, .generate hwrites hplanned, hreplaced⟩

/-- Every step leaves a rooted tree. -/
theorem rooted_perform (h : t.Rooted) (s : Step) : (s.perform t).1.Rooted := by
  cases s with
  | replace path content =>
    rw [(perform_replace t path content).1]
    exact h.replaceFile path content
  | save path c =>
    rw [perform_save, (perform_replace t path c.document).1]
    exact h.replaceFile path c.document
  | install path force =>
    rw [(perform_install t path force).1]
    exact Config.rooted_install h path force
  | load path => exact h
  | loadOrBuiltIn path => exact h
  | generate q => exact GenerateRequest.rooted_generate h q

/-! ### Sessions -/

/-- A session goes on at the tree that its first part has left. -/
theorem performAll_append (t : FileTree) (before after : List Step) :
    performAll t (before ++ after) =
      ((performAll (performAll t before).1 after).1,
        (performAll t before).2 ++ (performAll (performAll t before).1 after).2) := by
  induction before generalizing t with
  | nil => rfl
  | cons s before ih => simp only [List.cons_append, performAll, ih]

/-- There is one run for each step. -/
theorem length_performAll (t : FileTree) (steps : List Step) :
    (performAll t steps).2.length = steps.length := by
  induction steps generalizing t with
  | nil => rfl
  | cons s steps ih => simp only [performAll, List.length_cons, ih]

/-- What every step of a session keeps, the session keeps. -/
theorem performAll_induction {motive : FileTree → Prop}
    (step : ∀ {t} s, motive t → motive (perform t s).1) (h : motive t) (steps : List Step) :
    motive (performAll t steps).1 := by
  induction steps generalizing t with
  | nil => exact h
  | cons s steps ih => exact ih (step s h)

/-- Every session leaves a rooted tree. -/
theorem rooted_performAll (h : t.Rooted) (steps : List Step) : (performAll t steps).1.Rooted :=
  performAll_induction (motive := FileTree.Rooted) (fun s h => rooted_perform h s) h steps

/-- The tree after one more step, and the run of that step among those of a longer session. -/
theorem performAll_step (t : FileTree) (before : List Step) (s : Step) (after : List Step) :
    (performAll t (before ++ [s])).1 = (s.perform (performAll t before).1).1 ∧
      (performAll t (before ++ s :: after)).2[before.length]? =
        some (s.perform (performAll t before).1).2 := by
  rw [performAll_append, performAll_append]
  refine ⟨rfl, ?_⟩
  rw [← length_performAll t before, List.getElem?_append_right le_rfl, Nat.sub_self]
  rfl

/-- **Sessions are confined.** Of every step of a session, with the tree that it finds and the one
that it leaves: if it fails, all regular files are as before and there is no new one; if it
succeeds, it has only read and the tree is the same, or the one file that it is about holds the text
that is meant for it and all others are as before. Steps that only read, dry runs among them, never
change the tree. The built-in configuration is not written where there is something unless that is
asked for: the step fails and changes nothing. In a rooted tree it then leaves everything that there
is in its place, if the path has no double dots in it. -/
theorem performAll_confined (t : FileTree) (before : List Step) (s : Step) (after : List Step) :
    let now := (performAll t before).1
    let next := (performAll t (before ++ [s])).1
    ∃ run, (performAll t (before ++ s :: after)).2[before.length]? = some run ∧
      (∀ f, run.outcome = .error f → now.SameFiles next) ∧
      (∀ r, run.outcome = .ok r → s.readsOnly = true ∧ next = now ∨
        ∃ path content, s.Writes now path content ∧ now.FileReplaced next path content) ∧
      (s.readsOnly = true → next = now) ∧
      ∀ path, s = .install path false →
        (now.exists? (Path.ofString path) = true →
          run.outcome = .error (Fault.configExists path) ∧ next = now) ∧
        (t.Rooted → ".." ∉ (Path.ofString path).names →
          ∀ spot i, now.item? spot = some i → next.item? spot = some i) := by
  intro now next
  have hnext : next = (s.perform now).1 := (performAll_step t before s after).1
  refine ⟨_, (performAll_step t before s after).2, ?_, ?_, ?_, ?_⟩
  · intro f hf
    rcases perform_cases now s with ⟨-, -, hgrows⟩ | ⟨⟨r, hr⟩, -⟩
    · rw [hnext]
      exact hgrows.sameFiles
    · exact absurd (hf.symm.trans hr) nofun
  · intro r hr
    rcases perform_cases now s with ⟨f, hf, -⟩ | ⟨-, hdone⟩
    · exact absurd (hr.symm.trans hf) nofun
    · rwa [hnext]
  · intro hreads
    exact hnext.trans (perform_of_readsOnly hreads)
  · rintro path rfl
    obtain ⟨htree, houtcome⟩ := perform_install now path false
    refine ⟨fun hexists => ?_, fun hrooted hdots spot i hitem => ?_⟩
    · rw [houtcome, hnext.trans htree, Config.install_of_exists hexists]
      exact ⟨rfl, rfl⟩
    · rw [hnext.trans htree]
      exact Config.item?_install (rooted_performAll hrooted before) hdots hitem

end CidrCover.Step
