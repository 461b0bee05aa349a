import CidrCover.Run

/-!
# Outcomes and effects of runs

How a run ends is decided by how its parts end (`Run.outcome_bind`), and so is what it puts out. A
run is `Silent` if it puts out nothing. It `PrintsLast` if it puts out nothing but one text, with its
very last effect and when nothing can fail any more. A silent run that is followed by a print is of
that kind (`Silent.printsLast_bind`), and a run of that kind that fails has put out nothing
(`PrintsLast.output_of_error`).
-/

namespace CidrCover.Run

variable {α β : Type} {x : Run α} {f : α → Run β} {a : α} {e : Failure}

/-! ### Outcomes -/

/-- A chain ends as its first part does if that fails, and else as the second part. -/
@[simp] theorem outcome_bind (x : Run α) (f : α → Run β) :
    (x >>= f).outcome = x.outcome.bind fun a => (f a).outcome := by
  show (x.bind f).outcome = _
  unfold bind
  cases x.outcome with
  | error e => rfl
  | ok a => rfl

/-- The same for a chain that is written out. -/
@[simp] theorem outcome_chain (x : Run α) (f : α → Run β) :
    (x.bind f).outcome = x.outcome.bind fun a => (f a).outcome :=
  outcome_bind x f

/-- A result that is there at once. -/
@[simp] theorem outcome_pure (a : α) : (pure a : Run α).outcome = .ok a := rfl

/-- A result that is there at once. -/
@[simp] theorem outcome_ok (a : α) : (ok a).outcome = .ok a := rfl

/-- A failure that is there at once. -/
@[simp] theorem outcome_fail (f : Failure) : (fail f : Run α).outcome = .error f := rfl

/-- To note events never fails. -/
@[simp] theorem outcome_noteAll (es : List Event) : (noteAll es).outcome = .ok () := rfl

/-- To note an event never fails. -/
@[simp] theorem outcome_note (e : Event) : (note e).outcome = .ok () := rfl

/-- To note an event under a condition never fails. -/
@[simp] theorem outcome_noteIf (c : Bool) (e : Event) : (noteIf c e).outcome = .ok () := rfl

/-- To put out a text never fails. -/
@[simp] theorem outcome_print (text : String) : (print text).outcome = .ok () := rfl

/-- A check that is passed has its result. -/
@[simp] theorem outcome_ofFault_ok (a : α) : (ofFault (.ok a)).outcome = .ok a := rfl

/-- A check that is not passed fails with the fault that it has found. -/
@[simp] theorem outcome_ofFault_error (f : Fault) :
    (ofFault (.error f) : Run α).outcome = .error ⟨[], f⟩ := rfl

/-- An activity ends as it ends without its effects. -/
@[simp] theorem outcome_ofFailure (x : Except Failure α) : (ofFailure x).outcome = x := rfl

/-- A failure is named by what the activity is a part of. -/
@[simp] theorem outcome_within (c : Context) (x : Run α) :
    (x.within c).outcome = x.outcome.mapError (·.within c) := rfl

/-! ### Effects -/

/-- The effects of the second part come after those of the first, if that has a result. -/
theorem effects_bind_of_ok (h : x.outcome = .ok a) :
    (x >>= f).effects = x.effects ++ (f a).effects := by
  show (x.bind f).effects = _
  simp only [bind, h]

/-- A chain whose first part fails has the effects of that part alone. -/
theorem effects_bind_of_error (h : x.outcome = .error e) : (x >>= f).effects = x.effects := by
  show (x.bind f).effects = _
  simp only [bind, h]

/-- A text that is put out is all of the output. -/
@[simp] theorem output_print (text : String) : (print text).output = text := by
  show String.join [text] = text
  simp only [String.join_cons, String.join_nil, String.append_empty]

/-- What one part puts out and then the other is the output of the chain. -/
theorem output_bind_of_ok (h : x.outcome = .ok a) :
    (x >>= f).output = x.output ++ (f a).output := by
  unfold output texts
  rw [effects_bind_of_ok h, List.filterMap_append, String.join_append]

/-! ### Silent runs -/

/-- Nothing is put out. -/
def Silent (x : Run α) : Prop :=
  ∀ text, .printed text ∉ x.effects

/-- A result that is there at once puts out nothing. -/
@[simp] theorem silent_pure (a : α) : (pure a : Run α).Silent := nofun

/-- A result that is there at once puts out nothing. -/
@[simp] theorem silent_ok (a : α) : (ok a).Silent := nofun

/-- A failure that is there at once puts out nothing. -/
@[simp] theorem silent_fail (f : Failure) : (fail f : Run α).Silent := nofun

/-- Events go to the log and not to the output. -/
@[simp] theorem silent_noteAll (es : List Event) : (noteAll es).Silent := by
  intro text h
  obtain ⟨e, -, he⟩ := List.mem_map.mp h
  cases he

/-- An event goes to the log and not to the output. -/
@[simp] theorem silent_note (e : Event) : (note e).Silent := silent_noteAll _

/-- An event goes to the log and not to the output. -/
@[simp] theorem silent_noteIf (c : Bool) (e : Event) : (noteIf c e).Silent := silent_noteAll _

/-- A check has no effects. -/
@[simp] theorem silent_ofFault (x : Except Fault α) : (ofFault x).Silent := by
  cases x with
  | error f => exact nofun
  | ok a => exact nofun

/-- An activity whose effects are not looked at shows none. -/
@[simp] theorem silent_ofFailure (x : Except Failure α) : (ofFailure x).Silent := nofun

/-- To be a part of another activity is no effect. -/
theorem Silent.within (h : x.Silent) (c : Context) : (x.within c).Silent := h

/-- A chain is silent if its parts are. -/
theorem Silent.bind (hx : x.Silent) (hf : ∀ a, (f a).Silent) : (x >>= f).Silent := by
  intro text h
  cases houtcome : x.outcome with
  | error e =>
    rw [effects_bind_of_error houtcome] at h
    exact hx text h
  | ok a =>
    rw [effects_bind_of_ok houtcome] at h
    rcases List.mem_append.mp h with h | h
    · exact hx text h
    · exact hf a text h

/-- There is no text at any place among the effects of a silent run. -/
theorem Silent.effects_ne (h : x.Silent) (before : List Effect) (text : String)
    (after : List Effect) : x.effects ≠ before ++ .printed text :: after := by
  intro heffects
  apply h text
  rw [heffects]
  exact List.mem_append_right _ List.mem_cons_self

/-- A run that puts out nothing has put out the empty text. -/
theorem Silent.output_eq (h : x.Silent) : x.output = "" := by
  have htexts : x.texts = [] := by
    refine List.filterMap_eq_nil_iff.mpr fun effect heffect => ?_
    cases effect with
    | noted e => rfl
    | printed text => exact absurd heffect (h text)
  rw [output, htexts, String.join_nil]

/-- After a silent part, what is put out is what the next part puts out. -/
theorem Silent.output_bind (hx : x.Silent) (h : x.outcome = .ok a) :
    (x >>= f).output = (f a).output := by
  rw [output_bind_of_ok h, hx.output_eq, String.empty_append]

/-! ### Runs that print at their end -/

/-- Wherever a run puts out a text, it has put out nothing before, nothing comes after it, and the
run ends well. -/
def PrintsLast (x : Run α) : Prop :=
  ∀ before text after, x.effects = before ++ .printed text :: after →
    (∀ earlier, .printed earlier ∉ before) ∧ after = [] ∧ ∃ a, x.outcome = .ok a

/-- A silent run has no text to put out at the wrong place. -/
theorem Silent.printsLast (h : x.Silent) : x.PrintsLast := by
  intro before text after heffects
  exact absurd heffects (h.effects_ne before text after)

/-- To put out a text is to put it out with the last effect. -/
theorem printsLast_print (text : String) : (print text).PrintsLast := by
  intro before text' after h
  change [Effect.printed text] = before ++ .printed text' :: after at h
  obtain ⟨rfl, hrest⟩ := List.append_eq_singleton_iff.mp h.symm |>.resolve_right (by simp)
  cases hrest
  exact ⟨nofun, rfl, (), rfl⟩

/-- A text that is put out by a silent part and what comes after that is put out by the latter. -/
theorem Silent.exists_rest (hx : x.Silent) {effects before after : List Effect} {text : String}
    (h : x.effects ++ effects = before ++ .printed text :: after) :
    ∃ rest, before = x.effects ++ rest ∧ effects = rest ++ .printed text :: after := by
  rcases List.append_eq_append_iff.mp h with ⟨rest, hbefore, hrest⟩ | ⟨rest, hsilent, hrest⟩
  · exact ⟨rest, hbefore, hrest⟩
  · cases rest with
    | nil =>
      rw [List.append_nil] at hsilent
      refine ⟨[], ?_, hrest.symm⟩
      rw [hsilent, List.append_nil]
    | cons effect rest =>
      -- the text would belong to the silent part
      obtain ⟨rfl, -⟩ := List.cons.inj hrest
      exact absurd hsilent (hx.effects_ne before text rest)

/-- After a silent part a run that prints at its end still does. -/
theorem Silent.printsLast_bind (hx : x.Silent) (hf : ∀ a, x.outcome = .ok a → (f a).PrintsLast) :
    (x >>= f).PrintsLast := by
  intro before text after heffects
  cases houtcome : x.outcome with
  | error e =>
    rw [effects_bind_of_error houtcome] at heffects
    exact absurd heffects (hx.effects_ne before text after)
  | ok a =>
    rw [effects_bind_of_ok houtcome] at heffects
    obtain ⟨rest, rfl, hrest⟩ := hx.exists_rest heffects
    obtain ⟨hnone, hlast, b, hb⟩ := hf a houtcome rest text after hrest
    refine ⟨fun earlier hmem => ?_, hlast, b, ?_⟩
    · rcases List.mem_append.mp hmem with hmem | hmem
      · exact hx earlier hmem
      · exact hnone earlier hmem
    · rw [outcome_bind, houtcome]
      exact hb

/-- A run that prints at its end and fails has put out nothing. -/
theorem PrintsLast.output_of_error (h : x.PrintsLast) (he : x.outcome = .error e) :
    x.output = "" := by
  have hsilent : x.Silent := by
    intro text hmem
    obtain ⟨before, after, heffects⟩ := List.append_of_mem hmem
    obtain ⟨-, -, a, ha⟩ := h before text after heffects
    exact absurd (he.symm.trans ha) nofun
  exact hsilent.output_eq

end CidrCover.Run
