import CidrCover.Entry.Basic
import CidrCover.Proofs.Except
import Mathlib.Data.List.Forall2

/-!
# Reading entries

A list of entries is read as a whole or not at all. Either every entry denotes a prefix, and the
prefixes come out in their order (`parseAll_eq_ok_iff`), or there is a first entry that denotes
none, and it is the one reported (`FirstFlaw.parseAll_eq`).
-/

namespace CidrCover.Entry

variable {e : String} {entries : List String} {flaw : Malformation} {p : Prefix} {ps : List Prefix}

/-- The entry denotes a prefix. -/
def Readable (e : String) : Prop :=
  ∃ p, Prefix.parse e = .ok p

/-- The first entry that denotes no prefix, and why it does not. -/
def FirstFlaw (entries : List String) (e : String) (flaw : Malformation) : Prop :=
  ∃ before after, entries = before ++ e :: after ∧ (∀ d ∈ before, Readable d) ∧
    Prefix.parse e = .error flaw

/-- An entry is read as its prefix. -/
theorem parse_eq_ok_iff : parse e = .ok p ↔ Prefix.parse e = .ok p :=
  Except.mapError_eq_ok_iff

/-- Only the wording of the error is another one. -/
theorem toOption_parse (e : String) : (parse e).toOption = (Prefix.parse e).toOption :=
  Except.toOption_mapError _ _

/-- For an address only the length can be too great. -/
theorem ofAddress_of_le (a : Address) {len : Nat} (h : len ≤ 32) :
    ofAddress a len = .ok (Prefix.ofAddress a len h) := by
  rw [ofAddress, Prefix.ofAddress?, dif_pos h]
  rfl

/-! ### One entry more -/

/-- After an entry that can be read the others decide. -/
theorem parseAll_cons_of_ok (h : Prefix.parse e = .ok p) :
    parseAll (e :: entries) = (parseAll entries).map (p :: ·) := by
  have he : parse e = .ok p := by
    rw [parse, h]
    rfl
  unfold parseAll
  rw [List.mapM_cons, he]
  cases entries.mapM parse with
  | error f => rfl
  | ok ps => rfl

/-- An entry that cannot be read is reported as it was given. -/
theorem parseAll_cons_of_error (h : Prefix.parse e = .error flaw) :
    parseAll (e :: entries) = .error (.malformed e flaw) := by
  have he : parse e = .error (.malformed e flaw) := by
    rw [parse, h]
    rfl
  unfold parseAll
  rw [List.mapM_cons, he]
  rfl

/-! ### All entries -/

/-- Each entry with its prefix, in their order. -/
theorem parseAll_eq_ok_iff :
    parseAll entries = .ok ps ↔ List.Forall₂ (fun e p => Prefix.parse e = .ok p) entries ps := by
  induction entries generalizing ps with
  | nil =>
    rw [List.forall₂_nil_left_iff]
    constructor
    · intro h
      cases h
      rfl
    · rintro rfl
      rfl
  | cons e entries ih =>
    cases he : Prefix.parse e with
    | error flaw => simp [parseAll_cons_of_error he, List.forall₂_cons_left_iff, he]
    | ok p =>
      rw [parseAll_cons_of_ok he, List.forall₂_cons_left_iff]
      constructor
      · intro h
        cases hrest : parseAll entries with
        | error f =>
          rw [hrest] at h
          exact absurd h nofun
        | ok qs =>
          rw [hrest] at h
          cases h
          exact ⟨p, qs, he, ih.mp hrest, rfl⟩
      · rintro ⟨q, qs, hq, hqs, rfl⟩
        rw [ih.mpr hqs]
        cases he.symm.trans hq
        rfl

/-- If every entry can be read then the list can. -/
theorem exists_parseAll_eq_ok (h : ∀ e ∈ entries, Readable e) :
    ∃ ps, parseAll entries = .ok ps := by
  induction entries with
  | nil => exact ⟨[], rfl⟩
  | cons e entries ih =>
    obtain ⟨⟨p, hp⟩, hrest⟩ := List.forall_mem_cons.mp h
    obtain ⟨ps, hps⟩ := ih hrest
    exact ⟨p :: ps, by rw [parseAll_cons_of_ok hp, hps]; rfl⟩

/-- **The first flaw is the one reported.** -/
theorem FirstFlaw.parseAll_eq (h : FirstFlaw entries e flaw) :
    parseAll entries = .error (.malformed e flaw) := by
  obtain ⟨before, after, rfl, hbefore, he⟩ := h
  induction before with
  | nil => exact parseAll_cons_of_error he
  | cons d before ih =>
    obtain ⟨⟨p, hp⟩, hrest⟩ := List.forall_mem_cons.mp hbefore
    rw [List.cons_append, parseAll_cons_of_ok hp, ih hrest]
    rfl

/-- All entries can be read, or there is a first one that cannot. -/
theorem readable_or_firstFlaw (entries : List String) :
    (∀ e ∈ entries, Readable e) ∨ ∃ e flaw, FirstFlaw entries e flaw := by
  induction entries with
  | nil => exact Or.inl (List.forall_mem_nil _)
  | cons e entries ih =>
    cases he : Prefix.parse e with
    | error flaw => exact Or.inr ⟨e, flaw, [], entries, rfl, List.forall_mem_nil _, he⟩
    | ok p =>
      rcases ih with h | ⟨d, flaw, before, after, rfl, hbefore, hd⟩
      · exact Or.inl (List.forall_mem_cons.mpr ⟨⟨p, he⟩, h⟩)
      · have hmore := List.forall_mem_cons.mpr ⟨⟨p, he⟩, hbefore⟩
        exact Or.inr ⟨d, flaw, e :: before, after, rfl, hmore, hd⟩

/-- If the list can be read then every entry can. -/
theorem readable_of_parseAll (h : parseAll entries = .ok ps) : ∀ e ∈ entries, Readable e := by
  rcases readable_or_firstFlaw entries with hread | ⟨e, flaw, hflaw⟩
  · exact hread
  · rw [hflaw.parseAll_eq] at h
    exact absurd h nofun

/-! ### The prefixes of a list -/

/-- The prefix of an entry is among those of the list. -/
theorem mem_of_parseAll (h : parseAll entries = .ok ps) (he : e ∈ entries)
    (hp : Prefix.parse e = .ok p) : p ∈ ps := by
  rw [parseAll_eq_ok_iff] at h
  induction h with
  | nil => exact absurd he List.not_mem_nil
  | cons hq _ ih =>
    rcases List.mem_cons.mp he with rfl | he
    · cases hp.symm.trans hq
      exact List.mem_cons_self
    · exact List.mem_cons_of_mem _ (ih he)

/-- A list that is read is that of the prefixes of its entries. -/
theorem filterMap_of_parseAll (h : parseAll entries = .ok ps) :
    entries.filterMap (fun e => (Prefix.parse e).toOption) = ps := by
  rw [parseAll_eq_ok_iff] at h
  induction h with
  | nil => rfl
  | cons hp _ ih =>
    rw [List.filterMap_cons, hp, ih]
    rfl

/-- There is one prefix for each entry. -/
theorem length_of_parseAll (h : parseAll entries = .ok ps) : ps.length = entries.length :=
  (parseAll_eq_ok_iff.mp h).length_eq.symm

end CidrCover.Entry
