import CidrCover.FileTree.Atomic
import CidrCover.Proofs.FileTree.Basic
import CidrCover.Proofs.Text.Utf8

/-!
# Replacing a file touches nothing else

Writing a file as a whole either fails, and then directories are all that it may have added
(`replaceFile_error`), or it changes one place, where the path leads afterwards (`replaceFile_ok`).
There is nothing in between: a file that is replaced holds its new text at once.
-/

namespace CidrCover.FileTree

variable {t t' : FileTree} {path content : String} {f : Failure}

/-- The file of a path holds a text, and all other regular files are as they were. -/
structure FileReplaced (t t' : FileTree) (path content : String) : Prop where
  readText : t'.readText path = .ok content
  place : ∃ spot, t'.target (Path.ofString path) = .ok (.name spot false) ∧
    t'.contents? spot = some (Text.encodeUtf8 content) ∧
    ∀ other, other ≠ spot → t'.contents? other = t.contents? other

/-- A path whose last place holds a file finds that file. -/
theorem find_of_target {p : Path} {spot : Place} {bytes : ByteArray}
    (hp : t.target p = .ok (.name spot false)) (hitem : t.item? spot = some (.file bytes)) :
    t.find p = .ok (.file bytes) := by
  simp [find, hp, hitem, bind, Except.bind, pure, Except.pure]

/-- The tree with the directories that the file of a path needs, as far as they can be made. -/
def prepare (t : FileTree) (path : String) : FileTree :=
  (t.createDirectories (Path.ofString path).directory).1

/-- Making the directories of a path only adds to the tree. -/
theorem grows_prepare (t : FileTree) (path : String) : t.Grows (t.prepare path) :=
  createDirectories_grows t _

/-- Putting the content in the place the path names replaces its file, where no directory stands
there. -/
theorem fileReplaced_put {spot : Place}
    (hp : (t.prepare path).target (Path.ofString path) = .ok (.name spot false))
    (hdir : (t.prepare path).item? spot ≠ some .directory) :
    FileReplaced t ((t.prepare path).put spot (.file (Text.encodeUtf8 content))) path content := by
  have htarget := target_mono
    (keepsDirectories_put (i := .file (Text.encodeUtf8 content)) hdir) hp
  have hitem : ((t.prepare path).put spot (.file (Text.encodeUtf8 content))).item? spot = _ :=
    item?_put_self (ne_nil_of_target hp)
  constructor
  · simp [readText, read, find_of_target htarget hitem, bind, Except.bind, pure, Except.pure]
  · refine ⟨spot, htarget, contents?_eq_some_iff.mpr hitem, fun other hother => ?_⟩
    rw [contents?_congr (item?_put_of_ne hother), (grows_prepare t path).sameFiles other]

/-- What a file that is written as a whole can leave behind. -/
theorem replaceFile_cases (t : FileTree) (path content : String) :
    (∃ f, t.replaceFile path content = (t.prepare path, .error f)) ∨
    ∃ spot, t.replaceFile path content =
        ((t.prepare path).put spot (.file (Text.encodeUtf8 content)), .ok ()) ∧
      (t.prepare path).target (Path.ofString path) = .ok (.name spot false) ∧
      (t.prepare path).item? spot ≠ some .directory := by
  unfold prepare
  rcases hdirs : t.createDirectories (Path.ofString path).directory with ⟨u, e | v⟩
  · exact Or.inl ⟨_, by simp only [replaceFile, hdirs]; rfl⟩
  · cases hscratch : u.target (u.scratchPath (Path.ofString path).directory) with
    | error e => exact Or.inl ⟨_, by simp only [replaceFile, hdirs, hscratch]; rfl⟩
    | ok x =>
      cases hplace : u.place (Path.ofString path) (Text.encodeUtf8 content) with
      | error e => exact Or.inl ⟨_, by simp only [replaceFile, hdirs, hscratch, hplace]; rfl⟩
      | ok t' =>
        obtain ⟨spot, hp, hdir, rfl⟩ := place_eq_ok_iff.mp hplace
        exact Or.inr ⟨spot, by simp only [replaceFile, hdirs, hscratch, hplace], hp, hdir⟩

/-- A replacement that fails has at most made directories. -/
theorem replaceFile_error (h : (t.replaceFile path content).2 = .error f) :
    Grows t (t.replaceFile path content).1 := by
  rcases replaceFile_cases t path content with ⟨f', heq⟩ | ⟨spot, heq, -⟩
  · rw [heq]
    exact grows_prepare t path
  · rw [heq] at h
    exact absurd h nofun

/-- A replacement that succeeds has put the content where the path leads, and nothing else. -/
theorem replaceFile_ok (h : (t.replaceFile path content).2 = .ok ()) :
    FileReplaced t (t.replaceFile path content).1 path content := by
  rcases replaceFile_cases t path content with ⟨f, heq⟩ | ⟨spot, heq, hp, hdir⟩
  · rw [heq] at h
    exact absurd h nofun
  · rw [heq]
    exact fileReplaced_put hp hdir

end CidrCover.FileTree
