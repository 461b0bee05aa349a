import CidrCover.Config.Files
import CidrCover.Proofs.FileTree.Rooted
import CidrCover.Proofs.Run

/-!
# Writing the built-in configuration

Where a path leads to something, the built-in configuration is not written over it unless that is
asked for (`install_of_exists`); otherwise it is a file that is written as a whole.

Whether a path leads to something is found out before the directories above it are made. In a rooted
tree that makes no difference to a path without double dots: nothing that was there is written over
(`item?_install`). With double dots it does: a path may lead nowhere because it goes down into a
directory that is missing and up again, and lead to a file once that directory has been made
(`install_overwrites`).
-/

namespace CidrCover.Config

variable {t : FileTree} {path : String} {force : Bool}

/-- To find out which configuration applies puts out nothing. -/
theorem silent_loadOrBuiltIn (t : FileTree) (path : String) : (loadOrBuiltIn t path).Silent := by
  unfold loadOrBuiltIn
  split
  · exact Run.silent_ofFailure _
  · exact (Run.silent_note _).bind fun _ => Run.silent_pure _

/-- To write the built-in configuration puts out nothing. -/
theorem silent_install (t : FileTree) (path : String) (force : Bool) :
    (install t path force).2.Silent := by
  unfold install
  split
  · exact Run.silent_fail _
  · exact (Run.silent_ofFailure _).bind fun _ => Run.silent_note _

/-- Where there is something, the built-in configuration is refused. -/
theorem install_of_exists (h : t.exists? (Path.ofString path) = true) :
    install t path false = (t, Run.fail (Fault.configExists path)) := by
  simp [install, h]

/-- Where there is nothing, or where it may be written over, the built-in configuration is written
as a whole. -/
theorem install_of_free (h : t.exists? (Path.ofString path) = false ∨ force = true) :
    (install t path force).1 = (t.replaceFile path builtIn.document).1 ∧
      (install t path force).2.outcome = (t.replaceFile path builtIn.document).2 := by
  have hfree : (t.exists? (Path.ofString path) && !force) = false := by
    rcases h with h | h
    · simp [h]
    · simp [h]
  cases hwritten : (t.replaceFile path builtIn.document).2 with
  | error f => simp [install, hfree, save, hwritten, Except.bind]
  | ok u => simp [install, hfree, save, hwritten, Except.bind]

/-- What writing the built-in configuration can end in. -/
theorem install_cases (t : FileTree) (path : String) (force : Bool) :
    (∃ f, (install t path force).2.outcome = .error f ∧ t.Grows (install t path force).1) ∨
      (install t path force).2.outcome = .ok () ∧
        t.FileReplaced (install t path force).1 path builtIn.document := by
  by_cases h : t.exists? (Path.ofString path) = false ∨ force = true
  · obtain ⟨htree, houtcome⟩ := install_of_free h
    rw [htree, houtcome]
    cases hwritten : (t.replaceFile path builtIn.document).2 with
    | error f => exact Or.inl ⟨f, rfl, FileTree.replaceFile_error hwritten⟩
    | ok u => exact Or.inr ⟨rfl, FileTree.replaceFile_ok hwritten⟩
  · rw [not_or, Bool.not_eq_false, Bool.not_eq_true] at h
    obtain ⟨hexists, rfl⟩ := h
    rw [install_of_exists hexists]
    exact Or.inl ⟨_, rfl, FileTree.Grows.refl t⟩

/-- To write the built-in configuration leaves a rooted tree. -/
theorem rooted_install (h : t.Rooted) (path : String) (force : Bool) :
    (install t path force).1.Rooted := by
  by_cases hfree : t.exists? (Path.ofString path) = false ∨ force = true
  · rw [(install_of_free hfree).1]
    exact h.replaceFile path _
  · rw [not_or, Bool.not_eq_false, Bool.not_eq_true] at hfree
    obtain ⟨hexists, rfl⟩ := hfree
    rwa [install_of_exists hexists]

/-- A path leads to something if there is something at the name where it ends. -/
theorem exists?_of_target {p : Path} {spot : Place} {i : Item}
    (hp : t.target p = .ok (.name spot false)) (hitem : t.item? spot = some i) :
    t.exists? p = true := by
  cases i <;>
    simp [FileTree.exists?, FileTree.find, hp, hitem, bind, Except.bind, pure, Except.pure]

/-- **Nothing that is there is written over**, unless that is asked for or the path has double dots
in it. -/
theorem item?_install (h : t.Rooted) (hdots : ".." ∉ (Path.ofString path).names) {spot : Place}
    {i : Item} (hitem : t.item? spot = some i) :
    (install t path false).1.item? spot = some i := by
  cases hexists : t.exists? (Path.ofString path) with
  | true => rwa [install_of_exists hexists]
  | false =>
    have hgrows := t.grows_prepare path
    rw [(install_of_free (Or.inl hexists)).1]
    rcases t.replaceFile_cases path builtIn.document with ⟨f, heq⟩ | ⟨place, heq, hp, -⟩
    · rw [heq]
      exact hgrows.item?_eq_some hitem
    · have hne : spot ≠ place := by
        rintro rfl
        have hthere := exists?_of_target (h.target_of_grows hgrows hdots hp hitem) hitem
        exact absurd (hexists.symm.trans hthere) nofun
      rw [heq, FileTree.item?_put_of_ne hne]
      exact hgrows.item?_eq_some hitem

/-- A working directory with a configuration in it. -/
def configuredTree : FileTree :=
  FileTree.empty.put ["tmp", "work", "cidrcap.yaml"] (.file (Text.encodeUtf8 "max_blocks: 3\n"))

/-- The path with double dots leads to the configuration, once the missing directory has been made.
-/
theorem replaceFile_configuredTree (s : String) :
    (configuredTree.replaceFile "missing/../cidrcap.yaml" s).2 = .ok () ∧
      (configuredTree.replaceFile "missing/../cidrcap.yaml" s).1.contents?
        ["tmp", "work", "cidrcap.yaml"] = some (Text.encodeUtf8 s) := by
  constructor
  · rfl
  · rfl

/-- A document begins with a comment. -/
theorem head?_document (c : Config) : c.document.toList.head? = some '#' := by
  have hfirst : "# cidrcap configuration\n#\n".toList.head? = some '#' := by decide
  have hheader : configHeader.toList.head? = some '#' := by
    unfold configHeader
    simp only [String.toList_append, List.head?_append, hfirst, Option.some_or]
  rw [document, String.toList_append, List.head?_append, hheader, Option.some_or]

/-- A configuration is written over without that having been asked for, by a path that goes down
into a directory that is missing and up again. -/
theorem install_overwrites :
    (install configuredTree "missing/../cidrcap.yaml" false).2.outcome = .ok () ∧
      configuredTree.contents? ["tmp", "work", "cidrcap.yaml"] =
        some (Text.encodeUtf8 "max_blocks: 3\n") ∧
      (install configuredTree "missing/../cidrcap.yaml" false).1.contents?
          ["tmp", "work", "cidrcap.yaml"] ≠
        some (Text.encodeUtf8 "max_blocks: 3\n") := by
  have hfree : configuredTree.exists? (Path.ofString "missing/../cidrcap.yaml") = false ∨
      false = true := Or.inl rfl
  obtain ⟨htree, houtcome⟩ := install_of_free hfree
  have hhead := head?_document builtIn
  rw [htree, houtcome]
  generalize builtIn.document = content at hhead
  obtain ⟨hok, hcontents⟩ := replaceFile_configuredTree content
  refine ⟨hok, rfl, fun h => ?_⟩
  have hdocument := congrArg Text.decodeUtf8? (Option.some.inj (hcontents.symm.trans h))
  rw [Text.decodeUtf8?_encodeUtf8, Text.decodeUtf8?_encodeUtf8, Option.some.injEq] at hdocument
  rw [hdocument] at hhead
  exact absurd hhead (by decide)

end CidrCover.Config
