import CidrCover.Proofs.Aggregation.Composition
import CidrCover.Proofs.Entry.Shape
import CidrCover.Proofs.Prefix.Printed
import CidrCover.Proofs.Run

/-!
# Aggregating entries

Entries are aggregated as the prefixes that they denote, and the blocks are given as texts
(`outcome_aggregateEntries_of_parseAll`). A budget of zero comes before any flaw of an entry, and of
several flawed entries the first one is reported (`outcome_aggregateEntries_of_firstFlaw`). The
blocks of an aggregation are aggregated already (`Aggregation.blocks_specified_blocks`), so the
texts can be aggregated again without any change.

* **Entries and prefixes agree** (`aggregateEntries_agreement`): how an aggregation of entries ends,
  and what its texts are.
-/

namespace CidrCover

variable {e : String} {entries texts : List String} {flaw : Malformation} {n : Nat}
  {ps : List Prefix}

/-! ### Blocks are aggregated already -/

/-- With the same budget no block is given up. -/
theorem Aggregation.blocks_specified_blocks (ps : List Prefix) (n : Nat) :
    (specified (specified ps n).blocks n).blocks = (specified ps n).blocks := by
  have hfinished := SetReduction.finished_reduce n (SetReduction.ofPrefixes ps)
  unfold specified
  simp only [SetReduction.ofPrefixes_toList]
  generalize ((SetReduction.ofPrefixes ps).reduce n).blocks = blocks at hfinished ⊢
  have hsame : SetReduction.reduce n ⟨blocks, 0⟩ = ⟨blocks, 0⟩ :=
    SetReduction.reduce_of_finished hfinished
  rw [hsame]

/-! ### How an aggregation of entries ends -/

/-- With a positive budget the entries are read, and their maximal prefixes are reduced to it. -/
theorem outcome_aggregateEntries_of_pos (hn : 1 ≤ n) :
    (aggregateEntries entries n).outcome =
      (Run.ofFault (Entry.parseAll entries)).outcome.map fun ps =>
        (Aggregation.specified ps n).texts := by
  unfold aggregateEntries
  rw [checkMaxBlocks_of_pos hn]
  cases Entry.parseAll entries with
  | error f => simp [Except.bind, Except.map]
  | ok ps => simp [Except.bind, Except.map, outcome_aggregatePrefixes ps hn]

/-- The first flaw is the one reported. -/
theorem outcome_aggregateEntries_of_firstFlaw (hn : 1 ≤ n)
    (h : Entry.FirstFlaw entries e flaw) :
    (aggregateEntries entries n).outcome = .error ⟨[], .malformed e flaw⟩ := by
  rw [outcome_aggregateEntries_of_pos hn, h.parseAll_eq]
  rfl

/-- Entries without a flaw are aggregated like their prefixes. -/
theorem outcome_aggregateEntries_of_parseAll (hn : 1 ≤ n) (h : Entry.parseAll entries = .ok ps) :
    (aggregateEntries entries n).outcome = .ok (Aggregation.specified ps n).texts := by
  rw [outcome_aggregateEntries_of_pos hn, h]
  rfl

/-- What it takes to get texts. -/
theorem exists_parseAll_of_outcome (h : (aggregateEntries entries n).outcome = .ok texts) :
    1 ≤ n ∧ ∃ ps, Entry.parseAll entries = .ok ps ∧
      texts = (Aggregation.specified ps n).texts := by
  rcases Nat.eq_zero_or_pos n with rfl | hn
  · exact absurd h nofun
  · rcases Entry.readable_or_firstFlaw entries with hread | ⟨e, flaw, hflaw⟩
    · obtain ⟨ps, hps⟩ := Entry.exists_parseAll_eq_ok hread
      rw [outcome_aggregateEntries_of_parseAll hn hps] at h
      exact ⟨hn, ps, hps, (Except.ok.inj h).symm⟩
    · rw [outcome_aggregateEntries_of_firstFlaw hn hflaw] at h
      exact absurd h nofun

/-- **Aggregating again** changes nothing. -/
theorem outcome_aggregateEntries_again (h : (aggregateEntries entries n).outcome = .ok texts) :
    (aggregateEntries texts n).outcome = .ok texts := by
  obtain ⟨hn, ps, -, rfl⟩ := exists_parseAll_of_outcome h
  have hparse : Entry.parseAll (Aggregation.specified ps n).texts =
      .ok (Aggregation.specified ps n).blocks := Prefix.parseAll_text _
  rw [outcome_aggregateEntries_of_parseAll hn hparse, Aggregation.texts,
    Aggregation.blocks_specified_blocks]
  rfl

/-- A text that comes out is the printed form of a block. -/
theorem exists_text_eq_of_outcome (h : (aggregateEntries entries n).outcome = .ok texts)
    {s : String} (hs : s ∈ texts) : ∃ p : Prefix, p.text = s := by
  obtain ⟨-, ps, -, rfl⟩ := exists_parseAll_of_outcome h
  obtain ⟨p, -, hp⟩ := List.mem_map.mp hs
  exact ⟨p, hp⟩

/-! ### Entries and prefixes -/

/-- **Entries and prefixes agree.** A budget of zero is refused, whatever the entries are. With any
other budget the first entry that denotes no prefix is refused, if there is one; if there is none,
the texts are those of the blocks that the prefixes of the entries are aggregated to. Every text is
shaped and denotes a block of which it is the printed form, and with the same budget the texts are
aggregated to themselves. -/
theorem aggregateEntries_agreement :
    (∀ entries : List String,
      (aggregateEntries entries 0).outcome = .error ⟨[], .zeroTarget⟩) ∧
    (∀ (entries : List String) (n : Nat) (e : String) (flaw : Malformation), 1 ≤ n →
      Entry.FirstFlaw entries e flaw →
        (aggregateEntries entries n).outcome = .error ⟨[], .malformed e flaw⟩) ∧
    (∀ (entries : List String) (n : Nat), 1 ≤ n → (∀ e ∈ entries, Entry.Readable e) →
      ∃ ps a, Entry.parseAll entries = .ok ps ∧ (aggregatePrefixes ps n).outcome = .ok a ∧
        (aggregateEntries entries n).outcome = .ok (a.blocks.map Prefix.text)) ∧
    ∀ (entries texts : List String) (n : Nat), (aggregateEntries entries n).outcome = .ok texts →
      (∀ s ∈ texts, Entry.hasShape s = true ∧ ∃ p, Entry.parse s = .ok p ∧ p.text = s) ∧
      (aggregateEntries texts n).outcome = .ok texts := by
  refine ⟨fun _ => rfl, fun entries n e flaw hn h => outcome_aggregateEntries_of_firstFlaw hn h,
    ?_, ?_⟩
  · intro entries n hn hread
    obtain ⟨ps, hps⟩ := Entry.exists_parseAll_eq_ok hread
    exact ⟨ps, _, hps, outcome_aggregatePrefixes ps hn,
      outcome_aggregateEntries_of_parseAll hn hps⟩
  · intro entries texts n h
    refine ⟨fun s hs => ?_, outcome_aggregateEntries_again h⟩
    obtain ⟨p, rfl⟩ := exists_text_eq_of_outcome h hs
    have hp := p.parse_text
    exact ⟨Entry.hasShape_iff.mpr (Entry.shaped_of_parse hp), p, Entry.parse_eq_ok_iff.mpr hp, rfl⟩

/-- An octet out of range is reported before a length out of range that comes later. Without these
two entries, the halves of a block and a block within one of them, with blanks and leading zeros,
are aggregated to the block. -/
theorem aggregateEntries_agreement_of_entries :
    1 ≤ 1 ∧
      Entry.FirstFlaw [" 10.0.0.0/09", "10.0.256.0/16", "10.0.0.0/33"] "10.0.256.0/16"
        .octetRange ∧
      (aggregateEntries [" 10.0.0.0/09", "10.0.256.0/16", "10.0.0.0/33"] 1).outcome =
        .error ⟨[], .malformed "10.0.256.0/16" .octetRange⟩ ∧
      (∀ e ∈ [" 10.0.0.0/09", "10.128.0.0/9", "10.200.0.0/16"], Entry.Readable e) ∧
      (∃ ps a, Entry.parseAll [" 10.0.0.0/09", "10.128.0.0/9", "10.200.0.0/16"] = .ok ps ∧
        (aggregatePrefixes ps 1).outcome = .ok a ∧
        (aggregateEntries [" 10.0.0.0/09", "10.128.0.0/9", "10.200.0.0/16"] 1).outcome =
          .ok (a.blocks.map Prefix.text)) ∧
      (aggregateEntries [" 10.0.0.0/09", "10.128.0.0/9", "10.200.0.0/16"] 1).outcome =
        .ok ["10.0.0.0/8"] ∧
      "10.0.0.0/8" ∈ ["10.0.0.0/8"] ∧
      (Entry.hasShape "10.0.0.0/8" = true ∧
        ∃ p, Entry.parse "10.0.0.0/8" = .ok p ∧ p.text = "10.0.0.0/8") ∧
      (aggregateEntries ["10.0.0.0/8"] 1).outcome = .ok ["10.0.0.0/8"] := by
  obtain ⟨-, hflaw, hread, hagain⟩ := aggregateEntries_agreement
  have hbefore : ∀ e ∈ [" 10.0.0.0/09"], Entry.Readable e :=
    List.forall_mem_singleton.mpr ⟨_, rfl⟩
  have hfirst : Entry.FirstFlaw [" 10.0.0.0/09", "10.0.256.0/16", "10.0.0.0/33"] "10.0.256.0/16"
      .octetRange := ⟨[" 10.0.0.0/09"], ["10.0.0.0/33"], rfl, hbefore, rfl⟩
  have hall : ∀ e ∈ [" 10.0.0.0/09", "10.128.0.0/9", "10.200.0.0/16"], Entry.Readable e := by
    simp only [List.forall_mem_cons]
    exact ⟨⟨_, rfl⟩, ⟨_, rfl⟩, ⟨_, rfl⟩, List.forall_mem_nil _⟩
  have houtcome :
      (aggregateEntries [" 10.0.0.0/09", "10.128.0.0/9", "10.200.0.0/16"] 1).outcome =
        .ok ["10.0.0.0/8"] := by
    decide +kernel
  have hmem : "10.0.0.0/8" ∈ ["10.0.0.0/8"] := List.mem_singleton_self _
  obtain ⟨hshaped, hsame⟩ := hagain _ _ _ houtcome
  exact ⟨Nat.le_refl 1, hfirst, hflaw _ _ _ _ (Nat.le_refl 1) hfirst, hall,
    hread _ _ (Nat.le_refl 1) hall, houtcome, hmem, hshaped _ hmem, hsame⟩

end CidrCover
