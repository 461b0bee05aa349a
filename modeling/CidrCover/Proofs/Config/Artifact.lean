import CidrCover.Proofs.Aggregation.Independence
import CidrCover.Proofs.Config.Build
import CidrCover.Proofs.Prefix.Dotted

/-!
# The file depends on the ranges alone

What a build writes is decided by the name of the variable, the budget and the maximal elements of
the prefixes that the enabled entries denote (`Config.ranges`). Two configurations that cover the
same ranges are written as the same text, whatever their sources are called, however the entries are
parted into sources, ordered, repeated and spelled, and whatever there is besides that denotes no
prefix or is switched off.

* **The file depends on the ranges alone** (`Config.build_content_congr`).
-/

namespace CidrCover

/-- Lists that cover each other have the same maximal elements. -/
theorem Antichain.maximal_eq_of_covers {ps qs : List Prefix} (h : ∀ p ∈ ps, ∃ q ∈ qs, q.contains p)
    (h' : ∀ q ∈ qs, ∃ p ∈ ps, p.contains q) : maximal ps = maximal qs := by
  apply maximal_congr
  intro r
  constructor
  · rintro ⟨p, hp, hpr⟩
    obtain ⟨q, hq, hqp⟩ := h p hp
    exact ⟨q, hq, Prefix.contains_trans hqp hpr⟩
  · rintro ⟨q, hq, hqr⟩
    obtain ⟨p, hp, hpq⟩ := h' q hq
    exact ⟨p, hp, Prefix.contains_trans hpq hqr⟩

/-- The blocks depend on the prefixes through the maximal ones only. -/
theorem Aggregation.blocks_specified_congr {ps qs : List Prefix}
    (h : Antichain.maximal ps = Antichain.maximal qs) (n : Nat) :
    (specified ps n).blocks = (specified qs n).blocks := by
  unfold specified
  rw [SetReduction.ofPrefixes_congr h]

namespace Config

variable {c : Config} {n : Nat} {a : Aggregation} {x : String} {p : Prefix}

/-- The prefixes of the enabled entries that pass the filter. -/
def ranges (c : Config) : List Prefix :=
  c.shapedEntries.filterMap fun e => (Prefix.parse e).toOption

/-- The enabled entries are those of the sources that are switched on. -/
theorem mem_enabledCidrs {e : String} :
    e ∈ c.enabledCidrs ↔ ∃ s ∈ c.sources, s.enabled = true ∧ e ∈ s.cidrs := by
  simp [enabledCidrs, and_assoc]

/-- The filter takes no range away. -/
theorem ranges_eq (c : Config) :
    c.ranges = c.enabledCidrs.filterMap fun e => (Prefix.parse e).toOption := by
  rw [ranges, ← accepted_sift_enabledCidrs, Entry.filterMap_accepted]

/-- The filter, the names of the sources and the spelling of the entries leave no trace. -/
theorem mem_ranges :
    p ∈ c.ranges ↔ ∃ s ∈ c.sources, s.enabled = true ∧ ∃ e ∈ s.cidrs, Prefix.parse e = .ok p := by
  simp only [ranges_eq, List.mem_filterMap, mem_enabledCidrs, Except.toOption_eq_some_iff]
  constructor
  · rintro ⟨e, ⟨s, hs, henabled, he⟩, hp⟩
    exact ⟨s, hs, henabled, e, he, hp⟩
  · rintro ⟨s, hs, henabled, e, he, hp⟩
    exact ⟨e, ⟨s, hs, henabled, he⟩, hp⟩

/-- The ranges of a configuration are what its shaped entries are read as. -/
theorem ranges_of_parseAll {ps : List Prefix} (h : Entry.parseAll c.shapedEntries = .ok ps) :
    c.ranges = ps :=
  Entry.filterMap_of_parseAll h

/-- What a build that succeeds writes. -/
theorem content_of_build (h : (c.build n).outcome = .ok (a, x)) :
    x = Terraform.localsText (Aggregation.specified c.ranges n).texts c.variableName
      Terraform.generatorName := by
  rcases Entry.readable_or_firstFlaw c.shapedEntries with hread | ⟨e, flaw, hflaw⟩
  · obtain ⟨ps, hps⟩ := Entry.exists_parseAll_eq_ok hread
    rw [ranges_of_parseAll hps]
    rcases Nat.eq_zero_or_pos n with rfl | hn
    · rw [outcome_build_zero hps] at h
      exact absurd h nofun
    · by_cases hname : Terraform.Identifier c.variableName
      · rw [outcome_build_of_identifier hps hn hname] at h
        cases h
        rfl
      · rw [outcome_build_of_not_identifier hps hn hname] at h
        exact absurd h nofun
  · rw [outcome_build_of_firstFlaw hflaw] at h
    exact absurd h nofun

/-- **The file depends on the ranges alone.** Two builds with one name and one budget write the same
text if the maximal elements of the ranges are the same. So they do if every range of either
configuration lies in one of the other. The ranges are the prefixes that any enabled source has an
entry for, and an entry denotes the same prefix in every spelling: with other blanks around it,
other leading zeros and other bits below the length. -/
theorem build_content_congr :
    (∀ (c d : Config) (n : Nat) (a b : Aggregation) (x y : String),
      c.variableName = d.variableName → (c.build n).outcome = .ok (a, x) →
      (d.build n).outcome = .ok (b, y) →
      Antichain.maximal c.ranges = Antichain.maximal d.ranges → x = y) ∧
    (∀ c d : Config, (∀ p ∈ c.ranges, ∃ q ∈ d.ranges, q.contains p) →
      (∀ q ∈ d.ranges, ∃ p ∈ c.ranges, p.contains q) →
      Antichain.maximal c.ranges = Antichain.maximal d.ranges) ∧
    (∀ (c : Config) (p : Prefix), p ∈ c.ranges ↔
      ∃ s ∈ c.sources, s.enabled = true ∧ ∃ e ∈ s.cidrs, Prefix.parse e = .ok p) ∧
    ∀ (e e' : String) (os os' : List Nat) (len : Nat), Prefix.Spells e os len →
      Prefix.Spells e' os' len →
      addressOfOctets os &&& mask len = addressOfOctets os' &&& mask len →
      Prefix.parse e = Prefix.parse e' := by
  refine ⟨?_, fun c d h h' => Antichain.maximal_eq_of_covers h h', fun c p => mem_ranges,
    fun e e' os os' len h h' hbits => Prefix.parse_congr h h' hbits⟩
  intro c d n a b x y hname hx hy hmaximal
  have hblocks := Aggregation.blocks_specified_congr hmaximal n
  rw [content_of_build hx, content_of_build hy, hname, Aggregation.texts, Aggregation.texts,
    hblocks]

/-- A configuration with the two halves of a block, and a source that is switched off. -/
def halves : Config where
  maxBlocks := 60
  outputFile := "a.tf"
  variableName := "cidrs"
  sources := [⟨"a", true, ["10.0.0.0/9", "10.128.0.0/9"]⟩, ⟨"b", false, ["11.0.0.0/8"]⟩]

/-- The halves with other blanks, zeros and bits, in the other order and in two sources, with
entries besides that are nested in one of them or no IPv4 blocks. -/
def respelledHalves : Config where
  maxBlocks := 7
  outputFile := "b.tf"
  variableName := "cidrs"
  sources :=
    [⟨"b", true, ["::1/128", " 010.200.1.2/9"]⟩, ⟨"c", true, ["10.129.0.9/16", "10.0.0.0/09"]⟩]

/-- The halves and their other spelling have the same maximal ranges and give the same content. -/
theorem build_content_congr_of_halves :
    halves.variableName = respelledHalves.variableName ∧
      (∀ p ∈ halves.ranges, ∃ q ∈ respelledHalves.ranges, q.contains p) ∧
      (∀ q ∈ respelledHalves.ranges, ∃ p ∈ halves.ranges, p.contains q) ∧
      Antichain.maximal halves.ranges = Antichain.maximal respelledHalves.ranges ∧
      (∃ a b x y, (halves.build 1).outcome = .ok (a, x) ∧
        (respelledHalves.build 1).outcome = .ok (b, y) ∧ x = y) ∧
      Prefix.Spells " 010.200.1.2/9" [10, 200, 1, 2] 9 ∧
      Prefix.Spells "10.128.0.0/9" [10, 128, 0, 0] 9 ∧
      addressOfOctets [10, 200, 1, 2] &&& mask 9 = addressOfOctets [10, 128, 0, 0] &&& mask 9 ∧
      Prefix.parse " 010.200.1.2/9" = Prefix.parse "10.128.0.0/9" := by
  have hcovered : ∀ p ∈ halves.ranges, ∃ q ∈ respelledHalves.ranges, q.contains p := by
    decide +kernel
  have hcovers : ∀ q ∈ respelledHalves.ranges, ∃ p ∈ halves.ranges, p.contains q := by
    decide +kernel
  have hname : Terraform.Identifier "cidrs" := Terraform.isIdentifier_iff.mp (by decide)
  have hread : ∀ e ∈ halves.shapedEntries, Entry.Readable e := by
    have hshaped : halves.shapedEntries = ["10.0.0.0/9", "10.128.0.0/9"] := by decide +kernel
    rw [hshaped]
    simp only [List.forall_mem_cons]
    exact ⟨⟨_, rfl⟩, ⟨_, rfl⟩, List.forall_mem_nil _⟩
  have hread' : ∀ e ∈ respelledHalves.shapedEntries, Entry.Readable e := by
    have hshaped : respelledHalves.shapedEntries =
        ["010.200.1.2/9", "10.129.0.9/16", "10.0.0.0/09"] := by decide +kernel
    rw [hshaped]
    simp only [List.forall_mem_cons]
    exact ⟨⟨_, rfl⟩, ⟨_, rfl⟩, ⟨_, rfl⟩, List.forall_mem_nil _⟩
  obtain ⟨ps, hps⟩ := Entry.exists_parseAll_eq_ok hread
  obtain ⟨qs, hqs⟩ := Entry.exists_parseAll_eq_ok hread'
  have hbuild := outcome_build_of_identifier hps (Nat.le_refl 1) hname
  have hbuild' := outcome_build_of_identifier hqs (Nat.le_refl 1) hname
  have hspells : Prefix.Spells " 010.200.1.2/9" [10, 200, 1, 2] 9 :=
    ⟨rfl, by decide, by decide, ["010".toList, "200".toList, "1".toList, "2".toList], ['9'],
      by decide +kernel⟩
  have hspells' : Prefix.Spells "10.128.0.0/9" [10, 128, 0, 0] 9 :=
    ⟨rfl, by decide, by decide, ["10".toList, "128".toList, "0".toList, "0".toList], ['9'],
      by decide +kernel⟩
  have hbits : addressOfOctets [10, 200, 1, 2] &&& mask 9 =
      addressOfOctets [10, 128, 0, 0] &&& mask 9 := by decide
  obtain ⟨hcontents, hmaximal, -, hspellings⟩ := build_content_congr
  have hranges := hmaximal halves respelledHalves hcovered hcovers
  have hsame := hcontents halves respelledHalves 1 _ _ _ _ rfl hbuild hbuild' hranges
  exact ⟨rfl, hcovered, hcovers, hranges, ⟨_, _, _, _, hbuild, hbuild', hsame⟩, hspells, hspells',
    hbits, hspellings _ _ _ _ _ hspells hspells' hbits⟩

end Config

end CidrCover
