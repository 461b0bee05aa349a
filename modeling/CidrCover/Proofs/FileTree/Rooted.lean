import CidrCover.Proofs.FileTree.Atomic

/-!
# Rooted trees

In a tree as file systems keep them, everything lies in a directory, up to the root (`Rooted`). The
tree without files is such a tree (`rooted_empty`), and all that changes trees here keeps them so. In
a rooted tree a path without double dots is followed along the directories above the place that it
leads to, so if there is something at that place before directories are made for the path, then the
path led there already (`target_of_grows`).
-/

namespace CidrCover.FileTree

variable {t t' u : FileTree} {p : Path} {spot d e : Place} {i : Item} {names : List String}

/-- Everything lies in a directory, and the working directory is one. -/
structure Rooted (t : FileTree) : Prop where
  workingDirectory : t.item? t.workingDirectory = some .directory
  above : ∀ d name, t.item? (d ++ [name]) ≠ none → t.item? d = some .directory

/-- The root is a directory in every tree. -/
theorem item?_root (t : FileTree) : t.item? [] = some .directory := rfl

/-- The tree without files is rooted. -/
theorem rooted_empty : FileTree.empty.Rooted := by
  refine ⟨rfl, fun d name h => ?_⟩
  match d with
  | [] => rfl
  | [above] =>
    by_cases habove : above = "tmp"
    · rw [habove]
      rfl
    · simp [item?, empty, habove] at h
  | first :: second :: rest => cases rest <;> simp [item?, empty] at h

namespace Rooted

/-- In a rooted tree paths start at a directory. -/
theorem start (h : t.Rooted) (p : Path) : t.item? (t.start p) = some .directory := by
  unfold FileTree.start
  split_ifs
  · exact item?_root t
  · exact h.workingDirectory

/-- Above a directory there is a directory. -/
theorem dropLast (h : t.Rooted) (hd : t.item? d = some .directory) :
    t.item? d.dropLast = some .directory := by
  rcases List.eq_nil_or_concat' d with rfl | ⟨above, name, rfl⟩
  · exact hd
  · rw [List.dropLast_concat]
    apply h.above above name
    rw [hd]
    exact Option.some_ne_none _

/-- From a directory, names lead to a directory. -/
theorem foldlM_enter (h : t.Rooted) (hd : t.item? d = some .directory)
    (he : names.foldlM t.enter d = .ok e) : t.item? e = some .directory := by
  induction names generalizing d with
  | nil =>
    cases he
    exact hd
  | cons name names ih =>
    rw [List.foldlM_cons, Except.bind_eq_ok_iff] at he
    obtain ⟨next, hnext, he⟩ := he
    refine ih ?_ he
    rcases enter_eq_ok_iff.mp hnext with ⟨-, rfl⟩ | ⟨-, rfl⟩ | ⟨-, -, -, hdir, rfl⟩
    · exact hd
    · exact h.dropLast hd
    · exact hdir

/-- The place that a path leads to lies in a directory. -/
theorem target (h : t.Rooted) {closed : Bool} (hp : t.target p = .ok (.name spot closed)) :
    ∃ d name, spot = d ++ [name] ∧ t.item? d = some .directory := by
  obtain ⟨-, before, last, d, -, hd, -, -, -, rfl, -⟩ := target_eq_name_iff.mp hp
  exact ⟨d, last, rfl, h.foldlM_enter (h.start p) hd⟩

/-- Something may be put where there was no directory, in a directory. -/
theorem put (h : t.Rooted) (hspot : t.item? spot ≠ some .directory)
    (habove : ∃ d name, spot = d ++ [name] ∧ t.item? d = some .directory) :
    (t.put spot i).Rooted := by
  have hkept := (keepsDirectories_put (i := i) hspot).2
  refine ⟨hkept _ h.workingDirectory, fun d name hitem => hkept d ?_⟩
  by_cases heq : d ++ [name] = spot
  · obtain ⟨d', name', rfl, hd'⟩ := habove
    rwa [(List.append_singleton_inj.mp heq).1]
  · rw [item?_put_of_ne heq] at hitem
    exact h.above d name hitem

/-- To make a directory keeps a tree rooted. -/
theorem createDirectory (h : t.Rooted) (ht : t.createDirectory p = .ok t') : t'.Rooted := by
  obtain ⟨spot, closed, hp, hitem, rfl⟩ := createDirectory_eq_ok_iff.mp ht
  exact h.put (by simp [hitem]) (h.target hp)

/-- To make the directories that are missing keeps a tree rooted. -/
theorem createDirectories (h : t.Rooted) (p : Path) : (t.createDirectories p).1.Rooted :=
  createDirectories_induction createDirectory h

/-- To write a file as a whole keeps a tree rooted. -/
theorem replaceFile (h : t.Rooted) (path content : String) :
    (t.replaceFile path content).1.Rooted := by
  have hdirs : (t.prepare path).Rooted := h.createDirectories (Path.ofString path).directory
  rcases replaceFile_cases t path content with ⟨f, heq⟩ | ⟨spot, heq, hp, hdir⟩
  · rwa [heq]
  · rw [heq]
    exact hdirs.put hdir (hdirs.target hp)

end Rooted

/-! ### Paths without double dots -/

/-- Without double dots, names lead downwards. -/
theorem prefix_of_foldlM_enter (hdots : ".." ∉ names) (he : names.foldlM t.enter d = .ok e) :
    d <+: e := by
  induction names generalizing d with
  | nil =>
    cases he
    exact List.prefix_rfl
  | cons name names ih =>
    rw [List.mem_cons, not_or] at hdots
    rw [List.foldlM_cons, Except.bind_eq_ok_iff] at he
    obtain ⟨next, hnext, he⟩ := he
    have hafter := ih hdots.2 he
    rcases enter_eq_ok_iff.mp hnext with ⟨-, rfl⟩ | ⟨rfl, -⟩ | ⟨-, -, -, -, rfl⟩
    · exact hafter
    · exact absurd rfl hdots.1
    · exact (List.prefix_append d [name]).trans hafter

/-- All that a directory is in is a directory. -/
theorem Rooted.item?_of_prefix (h : t.Rooted) (hde : d <+: e)
    (he : t.item? e = some .directory) : t.item? d = some .directory := by
  obtain ⟨below, rfl⟩ := hde
  induction below using List.reverseRecOn with
  | nil => rwa [List.append_nil] at he
  | append_singleton below name ih =>
    apply ih
    apply h.above (d ++ below) name
    rw [List.append_assoc, he]
    exact Option.some_ne_none _

/-- It takes no other directories to reach a directory of a rooted tree. -/
theorem Rooted.foldlM_enter_of_item? (h : t.Rooted) (hdots : ".." ∉ names)
    (hd : names.foldlM u.enter d = .ok e) (he : t.item? e = some .directory) :
    names.foldlM t.enter d = .ok e := by
  induction names generalizing d with
  | nil => exact hd
  | cons name names ih =>
    rw [List.mem_cons, not_or] at hdots
    rw [List.foldlM_cons, Except.bind_eq_ok_iff] at hd ⊢
    obtain ⟨next, hnext, hd⟩ := hd
    refine ⟨next, ?_, ih hdots.2 hd⟩
    rw [enter_eq_ok_iff] at hnext ⊢
    refine hnext.imp_right (Or.imp_right ?_)
    rintro ⟨hdot, hdots', hname, -, rfl⟩
    exact ⟨hdot, hdots', hname, h.item?_of_prefix (prefix_of_foldlM_enter hdots.2 hd) he, rfl⟩

/-- **A path without double dots leads to what is there**, whether directories are made for it
first or not. -/
theorem Rooted.target_of_grows (h : t.Rooted) (hu : t.Grows u) (hdots : ".." ∉ p.names)
    {closed : Bool} (hp : u.target p = .ok (.name spot closed)) (hspot : t.item? spot = some i) :
    t.target p = .ok (.name spot closed) := by
  rw [target_eq_name_iff] at hp ⊢
  obtain ⟨hfollow, before, last, d, hnames, hd, hdot, hdots', hlast, rfl, hclosed⟩ := hp
  refine ⟨hfollow, before, last, d, hnames, ?_, hdot, hdots', hlast, rfl, hclosed⟩
  have hbefore : ".." ∉ before := fun hmem => hdots (by simp [hnames, hmem])
  have hdir : t.item? d = some .directory := h.above d last (by simp [hspot])
  have hstart : u.start p = t.start p := by
    unfold FileTree.start
    rw [hu.workingDirectory]
  rw [hstart] at hd
  exact h.foldlM_enter_of_item? hbefore hd hdir

end CidrCover.FileTree
