import CidrCover.Aggregation.Listing
import CidrCover.Proofs.Aggregation.Result
import CidrCover.Proofs.Entry.Basic
import CidrCover.Proofs.Entry.Lines
import CidrCover.Proofs.Except
import CidrCover.Proofs.Run

/-!
# When a list is aggregated

A list is aggregated as a whole or not at all. All goes well if the budget is not zero, all entries
can be read and the input, if they come from there, is a text (`outcome_aggregate_eq_ok_iff`); what
is put out then, and put out last, is the list of blocks of the aggregation of all entries
(`output_aggregate`, `printsLast_aggregate`).
-/

namespace CidrCover.AggregateRequest

variable {q : AggregateRequest} {input : ByteArray} {entries : List String}

/-- The input is a text, if entries are read from it. -/
def InputIsText (q : AggregateRequest) (input : ByteArray) : Prop :=
  q.entries = [] → ∃ s, Text.decodeUtf8? input = some s

/-- The entries can be had if the input is a text or is not needed. -/
theorem exists_allEntries_iff :
    (∃ entries, q.allEntries input = .ok entries) ↔ q.InputIsText input := by
  unfold allEntries InputIsText
  cases hentries : q.entries with
  | cons e rest => simp
  | nil =>
    simp only [List.isEmpty_nil, if_true, true_implies]
    cases hinput : Text.decodeUtf8? input with
    | none => simp [Entry.readLines_of_not_text hinput]
    | some s =>
      rw [Text.decodeUtf8?_eq_some_iff] at hinput
      rw [hinput, Entry.readLines_encodeUtf8]
      simp

/-- The parts of an aggregation that can fail, and what they result in. -/
theorem stages_of_outcome (h : (q.aggregate input).outcome = .ok ()) :
    ∃ entries ps a, q.allEntries input = .ok entries ∧ Entry.parseAll entries = .ok ps ∧
      (aggregatePrefixes ps q.budget).outcome = .ok a := by
  unfold aggregate at h
  cases hall : q.allEntries input with
  | error f => simp [hall, Except.bind] at h
  | ok entries =>
    cases hparse : Entry.parseAll entries with
    | error f => simp [hall, hparse, Except.bind] at h
    | ok ps =>
      cases hblocks : (aggregatePrefixes ps q.budget).outcome with
      | error f => simp [hall, hparse, hblocks, Except.bind] at h
      | ok a => exact ⟨entries, ps, a, rfl, hparse, hblocks⟩

/-- An aggregation all of whose parts have results ends well and puts out its blocks. -/
theorem output_aggregate {ps : List Prefix} {a : Aggregation}
    (hall : q.allEntries input = .ok entries) (hparse : Entry.parseAll entries = .ok ps)
    (hblocks : (aggregatePrefixes ps q.budget).outcome = .ok a) :
    (q.aggregate input).outcome = .ok () ∧
      (q.aggregate input).output = q.format.write a.blocks := by
  unfold aggregate
  rw [hall]
  constructor
  · simp [hparse, hblocks, Except.bind]
  · rw [(Run.silent_ofFailure _).output_bind rfl, hparse, (Run.silent_ofFault _).output_bind rfl,
      (silent_aggregatePrefixes ps _).output_bind hblocks, (Run.silent_note _).output_bind rfl,
      Run.output_print]

/-- An aggregation prints at its end, when nothing can fail any more. -/
theorem printsLast_aggregate (q : AggregateRequest) (input : ByteArray) :
    (q.aggregate input).PrintsLast := by
  refine (Run.silent_ofFailure _).printsLast_bind fun entries _ => ?_
  refine (Run.silent_ofFault _).printsLast_bind fun ps _ => ?_
  refine (silent_aggregatePrefixes ps _).printsLast_bind fun a _ => ?_
  exact (Run.silent_note _).printsLast_bind fun _ _ => Run.printsLast_print _

/-- **When a list is aggregated.** -/
theorem outcome_aggregate_eq_ok_iff :
    (q.aggregate input).outcome = .ok () ↔
      1 ≤ q.budget ∧ q.InputIsText input ∧
        ∀ entries, q.allEntries input = .ok entries → ∀ e ∈ entries, Entry.Readable e := by
  constructor
  · intro h
    obtain ⟨entries, ps, a, hall, hparse, hblocks⟩ := stages_of_outcome h
    refine ⟨?_, exists_allEntries_iff.mp ⟨entries, hall⟩, ?_⟩
    · by_contra hzero
      rw [Nat.lt_one_iff.mp (Nat.lt_of_not_le hzero)] at hblocks
      exact absurd hblocks nofun
    · intro entries' hall'
      cases hall.symm.trans hall'
      exact Entry.readable_of_parseAll hparse
  · rintro ⟨hbudget, htext, hread⟩
    obtain ⟨entries, hall⟩ := exists_allEntries_iff.mpr htext
    obtain ⟨ps, hparse⟩ := Entry.exists_parseAll_eq_ok (hread entries hall)
    exact (output_aggregate hall hparse (outcome_aggregatePrefixes ps hbudget)).1

end CidrCover.AggregateRequest
