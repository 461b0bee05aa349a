import CidrCover.FileTree.Basic
import CidrCover.Proofs.Except
import Mathlib.Data.List.Basic
import Mathlib.Tactic.SplitIfs

/-!
# What changes in a file tree

A tree is compared with another one place by place. Making directories leaves every item where it is
and puts directories at places where there was nothing (`Grows`, `createDirectories_grows`), so all
regular files keep their bytes, whether the directory comes about or not. Placing a file changes a
single place (`place_eq_ok_iff`).

Following a path only asks which places are directories (`target_mono`), so a path that leads to a
place still does so when a file has been put there.
-/

namespace CidrCover.FileTree

variable {t t' t'' : FileTree} {p : Path} {spot other : Place} {bytes : ByteArray} {i : Item}

/-! ### Single places -/

/-- To take the items of one place out of a list does not concern another place. -/
theorem lookup_filter_of_ne {items : List (Place × Item)} (h : other ≠ spot) :
    (items.filter (·.1 != spot)).lookup other = items.lookup other := by
  induction items with
  | nil => rfl
  | cons entry items ih =>
    obtain ⟨place, j⟩ := entry
    by_cases hplace : place = spot
    · subst hplace
      have hne : (other == place) = false := beq_eq_false_iff_ne.mpr h
      simp [List.lookup_cons, hne, ih]
    · by_cases hother : other = place
      · subst hother
        simp [hplace]
      · have hne : (other == place) = false := beq_eq_false_iff_ne.mpr hother
        simp [List.lookup_cons, hplace, hne, ih]

/-- What is put at a place stands there. -/
theorem item?_put_self (h : spot ≠ []) : (t.put spot i).item? spot = some i := by
  simp [item?, put, h]

/-- At all other places there is what was there. -/
theorem item?_put_of_ne (h : other ≠ spot) : (t.put spot i).item? other = t.item? other := by
  have hne : (other == spot) = false := beq_eq_false_iff_ne.mpr h
  unfold item? put
  rw [List.lookup_cons, hne, lookup_filter_of_ne h]

/-- The bytes of a place are those of the file that stands there. -/
theorem contents?_eq_some_iff :
    t.contents? spot = some bytes ↔ t.item? spot = some (.file bytes) := by
  unfold contents?
  split <;> simp_all

/-- A directory stands at a place if it is the item of that place. -/
theorem isDirectoryAt_iff : t.isDirectoryAt spot = true ↔ t.item? spot = some .directory := by
  unfold isDirectoryAt
  split <;> simp_all

/-- Where the same item stands, there are the same bytes. -/
theorem contents?_congr (h : t'.item? spot = t.item? spot) :
    t'.contents? spot = t.contents? spot := by
  unfold contents?
  rw [h]

/-- The same regular files, with the same bytes. -/
def SameFiles (t t' : FileTree) : Prop :=
  ∀ spot, t'.contents? spot = t.contents? spot

/-- Every tree has its own files. -/
theorem SameFiles.refl (t : FileTree) : SameFiles t t := fun _ => rfl

/-! ### Following paths -/

/-- What was a directory still is one. -/
def KeepsDirectories (t t' : FileTree) : Prop :=
  t'.workingDirectory = t.workingDirectory ∧
    ∀ spot, t.item? spot = some .directory → t'.item? spot = some .directory

/-- A place passes as a directory if one stands there. -/
theorem checkDirectory_eq_ok_iff :
    t.checkDirectory spot = .ok () ↔ t.item? spot = some .directory := by
  unfold checkDirectory
  split <;> simp_all

/-- How a name is entered: a dot stays, two dots go up, and any other name has to be that of a
directory, and not too long. -/
theorem enter_eq_ok_iff {d e : Place} {name : String} :
    t.enter d name = .ok e ↔
      (name = "." ∧ e = d) ∨ (name = ".." ∧ e = d.dropLast) ∨
      (name ≠ "." ∧ name ≠ ".." ∧ checkName name = .ok () ∧
        t.item? (d ++ [name]) = some .directory ∧ e = d ++ [name]) := by
  unfold enter
  by_cases hdot : name = "."
  · simp [hdot, eq_comm]
  · by_cases hdots : name = ".."
    · simp [hdots, eq_comm]
    · rw [if_neg (by simpa using hdot), if_neg (by simpa using hdots), ← checkDirectory_eq_ok_iff]
      cases hname : checkName name with
      | error f => simp [hdot, hdots, bind, Except.bind]
      | ok u =>
        cases hdir : t.checkDirectory (d ++ [name]) with
        | error f => simp [hdot, hdots, bind, Except.bind]
        | ok v => simp [hdot, hdots, bind, Except.bind, pure, Except.pure, eq_comm]

/-- As long as directories are kept, a name leads where it has led. -/
theorem enter_mono (h : KeepsDirectories t t') {d e : Place} {name : String}
    (he : t.enter d name = .ok e) : t'.enter d name = .ok e := by
  rw [enter_eq_ok_iff] at he ⊢
  refine he.imp_right (Or.imp_right ?_)
  rintro ⟨hdot, hdots, hname, hdir, rfl⟩
  exact ⟨hdot, hdots, hname, h.2 _ hdir, rfl⟩

/-- The same of several names, one after another. -/
theorem foldlM_enter_mono (h : KeepsDirectories t t') {names : List String} {d e : Place}
    (he : names.foldlM t.enter d = .ok e) : names.foldlM t'.enter d = .ok e := by
  induction names generalizing d with
  | nil => exact he
  | cons name names ih =>
    rw [List.foldlM_cons] at he ⊢
    cases hd : t.enter d name with
    | error f =>
      rw [hd] at he
      exact absurd he nofun
    | ok d' =>
      rw [hd] at he
      rw [enter_mono h hd]
      exact ih he

/-- Where a path starts. -/
def start (t : FileTree) (p : Path) : Place :=
  if p.isAbsolute then [] else t.workingDirectory

/-- The text of a path is one that a file system looks at. -/
def Followable (p : Path) : Prop :=
  '\x00' ∉ p.chars ∧ p.isBlank = false ∧ p.text.utf8ByteSize ≤ maxPathBytes

/-- The last name of a path, once the directory in which it is looked up is known. -/
def lookUp (t : FileTree) (p : Path) (last : String) (d : Place) : Except SystemFault Target := do
  if last == "." || last == ".." then return .directory (← t.enter d last)
  checkName last
  return .name (d ++ [last]) p.isClosed

/-- The last name is a name to put something under if it is neither dot nor double dot and not too
long. -/
theorem lookUp_eq_name_iff {last : String} {d : Place} {closed : Bool} :
    t.lookUp p last d = .ok (.name spot closed) ↔
      last ≠ "." ∧ last ≠ ".." ∧ checkName last = .ok () ∧ spot = d ++ [last] ∧
        closed = p.isClosed := by
  unfold lookUp
  by_cases hdots : last = "." ∨ last = ".."
  · rw [if_pos (by simpa using hdots)]
    simp only [Except.bind_eq_ok_iff]
    rcases hdots with rfl | rfl <;> simp [pure, Except.pure]
  · rw [not_or] at hdots
    rw [if_neg (by simpa using hdots)]
    simp [Except.bind_eq_ok_iff, hdots, pure, Except.pure]
    grind

/-- To follow a path is to enter its names but the last and to look that up. -/
theorem target_of_followable (h : Followable p) {before : List String} {last : String}
    (hnames : p.names = before ++ [last]) :
    t.target p = before.foldlM t.enter (t.start p) >>= t.lookUp p last := by
  obtain ⟨hnul, hblank, hsize⟩ := h
  have hnul' : p.chars.contains '\x00' = false := by simpa using hnul
  unfold target
  simp only [hnul', hblank, Nat.not_lt.mpr hsize, Bool.false_eq_true, if_false, hnames,
    List.reverse_append, List.reverse_singleton, List.singleton_append, List.reverse_reverse]
  rfl

/-- A path that leads somewhere is one that can be followed. -/
theorem followable_of_target {x : Target} (h : t.target p = .ok x) : Followable p := by
  unfold target at h
  unfold Followable
  split_ifs at h <;> simp_all [throw, throwThe, MonadExceptOf.throw, bind, Except.bind]

/-- A path that ends in a name has names. -/
theorem names_ne_nil_of_target {closed : Bool} (h : t.target p = .ok (.name spot closed)) :
    p.names ≠ [] := by
  intro hnames
  obtain ⟨hnul, hblank, hsize⟩ := followable_of_target h
  simp [target, hnul, hblank, Nat.not_lt.mpr hsize, hnames, pure, Except.pure] at h

/-- Which paths lead to a name: those whose names before the last one can be entered one after
another, and whose last one is no dot and not too long. -/
theorem target_eq_name_iff {closed : Bool} :
    t.target p = .ok (.name spot closed) ↔
      Followable p ∧ ∃ before last d, p.names = before ++ [last] ∧
        before.foldlM t.enter (t.start p) = .ok d ∧ last ≠ "." ∧ last ≠ ".." ∧
        checkName last = .ok () ∧ spot = d ++ [last] ∧ closed = p.isClosed := by
  constructor
  · intro h
    have hfollow := followable_of_target h
    obtain ⟨before, last, hnames⟩ :=
      (List.eq_nil_or_concat' p.names).resolve_left (names_ne_nil_of_target h)
    rw [target_of_followable hfollow hnames, Except.bind_eq_ok_iff] at h
    obtain ⟨d, hd, hlast⟩ := h
    exact ⟨hfollow, before, last, d, hnames, hd, lookUp_eq_name_iff.mp hlast⟩
  · rintro ⟨hfollow, before, last, d, hnames, hd, hlast⟩
    rw [target_of_followable hfollow hnames, Except.bind_eq_ok_iff]
    exact ⟨d, hd, lookUp_eq_name_iff.mpr hlast⟩

/-- A path that led to a name still does, and to the same place. -/
theorem target_mono (h : KeepsDirectories t t') {closed : Bool}
    (hp : t.target p = .ok (.name spot closed)) : t'.target p = .ok (.name spot closed) := by
  rw [target_eq_name_iff] at hp ⊢
  obtain ⟨hfollow, before, last, d, hnames, hd, hlast⟩ := hp
  refine ⟨hfollow, before, last, d, hnames, foldlM_enter_mono h ?_, hlast⟩
  unfold start at hd ⊢
  rwa [h.1]

/-- The place of a name is not the root. -/
theorem ne_nil_of_target {closed : Bool} (h : t.target p = .ok (.name spot closed)) :
    spot ≠ [] := by
  obtain ⟨-, -, -, -, -, -, -, -, -, rfl, -⟩ := target_eq_name_iff.mp h
  simp

/-! ### Making directories -/

/-- The second tree is the first one with directories added at places where there was nothing. -/
structure Grows (t t' : FileTree) : Prop where
  workingDirectory : t'.workingDirectory = t.workingDirectory
  item : ∀ spot, t'.item? spot = t.item? spot ∨
    t.item? spot = none ∧ t'.item? spot = some .directory

namespace Grows

/-- To add nothing is to grow. -/
theorem refl (t : FileTree) : Grows t t := ⟨rfl, fun _ => Or.inl rfl⟩

/-- What grows twice grows. -/
theorem trans (h : Grows t t') (h' : Grows t' t'') : Grows t t'' where
  workingDirectory := h'.workingDirectory.trans h.workingDirectory
  item := by
    intro spot
    rcases h.item spot with hi | ⟨hi, hj⟩
    · rw [← hi]
      exact h'.item spot
    · rcases h'.item spot with hk | ⟨hk, -⟩
      · exact Or.inr ⟨hi, hk.trans hj⟩
      · exact absurd (hk.symm.trans hj) nofun

/-- In a tree that has grown there is all that there was. -/
theorem item?_eq_some (h : Grows t t') (hi : t.item? spot = some i) : t'.item? spot = some i := by
  rcases h.item spot with hj | ⟨hj, -⟩
  · rw [hj, hi]
  · exact absurd (hj.symm.trans hi) nofun

/-- The regular files of a tree that has grown are the same. -/
theorem sameFiles (h : Grows t t') : SameFiles t t' := by
  intro spot
  unfold contents?
  rcases h.item spot with hi | ⟨hi, hj⟩
  · rw [hi]
  · rw [hi, hj]

end Grows

/-- What it takes to make a directory, and what becomes of the tree. -/
theorem createDirectory_eq_ok_iff :
    t.createDirectory p = .ok t' ↔
      ∃ spot closed, t.target p = .ok (.name spot closed) ∧ t.item? spot = none ∧
        t' = t.put spot .directory := by
  unfold createDirectory
  rw [Except.bind_eq_ok_iff]
  constructor
  · rintro ⟨x, hx, h⟩
    cases x with
    | directory d => exact absurd h nofun
    | name spot closed =>
      cases hitem : t.item? spot with
      | some i => simp [hitem, throw, throwThe, MonadExceptOf.throw, bind, Except.bind] at h
      | none =>
        simp only [hitem, Option.isSome_none, Bool.false_eq_true, if_false] at h
        cases h
        exact ⟨spot, closed, hx, hitem, rfl⟩
  · rintro ⟨spot, closed, hx, hitem, rfl⟩
    refine ⟨_, hx, ?_⟩
    simp [hitem, pure, Except.pure]

/-- What making one directory keeps, making a directory and those above it keeps, even if one of
them cannot be made. -/
theorem createDirectories_induction {motive : FileTree → Prop}
    (step : ∀ {t t' p}, motive t → t.createDirectory p = .ok t' → motive t') (h : motive t) :
    motive (t.createDirectories p).1 := by
  have hensure : ∀ {t} p, motive t → motive (t.ensureDirectory p).1 := by
    intro t p h
    unfold ensureDirectory
    cases ht : t.createDirectory p with
    | error e => exact h
    | ok t' => exact step h ht
  have hwith : ∀ depth t p, motive t → motive (createDirectoriesWith depth t p).1 := by
    intro depth
    induction depth with
    | zero => exact fun t p h => hensure p h
    | succ depth ih =>
      intro t p h
      have hhere := hensure p h
      unfold createDirectoriesWith
      split_ifs
      · exact h
      · split
        · rename_i first d hfirst hparent
          rw [hfirst] at hhere
          have habove := ih first d hhere
          split
          · rename_i above habove'
            rw [habove'] at habove
            exact hensure p habove
          · exact habove
        · exact hhere
  exact hwith _ t p h

/-- To make a directory is to grow. -/
theorem createDirectory_grows (h : t.createDirectory p = .ok t') : Grows t t' := by
  obtain ⟨spot, closed, hp, hitem, rfl⟩ := createDirectory_eq_ok_iff.mp h
  refine ⟨rfl, fun other => ?_⟩
  by_cases hother : other = spot
  · subst hother
    exact Or.inr ⟨hitem, item?_put_self (ne_nil_of_target hp)⟩
  · exact Or.inl (item?_put_of_ne hother)

/-- **Making directories adds directories.** -/
theorem createDirectories_grows (t : FileTree) (p : Path) : Grows t (t.createDirectories p).1 :=
  createDirectories_induction (fun h ht => h.trans (createDirectory_grows ht)) (Grows.refl t)

/-! ### Placing files -/

/-- What it takes to place a file, and what becomes of the tree. -/
theorem place_eq_ok_iff :
    t.place p bytes = .ok t' ↔
      ∃ spot, t.target p = .ok (.name spot false) ∧ t.item? spot ≠ some .directory ∧
        t' = t.put spot (.file bytes) := by
  unfold place
  rw [Except.bind_eq_ok_iff]
  constructor
  · rintro ⟨x, hx, h⟩
    cases x with
    | directory d => exact absurd h nofun
    | name spot closed =>
      cases closed with
      | true => exact absurd h nofun
      | false =>
        cases hdir : t.isDirectoryAt spot with
        | true =>
          simp [hdir, throw, throwThe, MonadExceptOf.throw, bind, Except.bind] at h
        | false =>
          simp only [hdir, Bool.false_eq_true, if_false] at h
          cases h
          refine ⟨spot, hx, ?_, rfl⟩
          intro hitem
          exact Bool.false_ne_true (hdir.symm.trans (isDirectoryAt_iff.mpr hitem))
  · rintro ⟨spot, hx, hdir, rfl⟩
    have hdir' : t.isDirectoryAt spot = false := by
      rw [Bool.eq_false_iff]
      exact mt isDirectoryAt_iff.mp hdir
    refine ⟨_, hx, ?_⟩
    simp [hdir', pure, Except.pure]

/-- To put an item where there is no directory keeps the directories. -/
theorem keepsDirectories_put (h : t.item? spot ≠ some .directory) :
    KeepsDirectories t (t.put spot i) := by
  refine ⟨rfl, fun other hother => ?_⟩
  have hne : other ≠ spot := by
    rintro rfl
    exact h hother
  rw [item?_put_of_ne hne, hother]

end CidrCover.FileTree
