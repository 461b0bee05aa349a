import CidrCover.Proofs.Aggregation.Result

/-!
# Nothing is lost and nothing is made up

A set of prefixes under reduction *serves* a list if it holds each prefix of the list and has no
member without one. Adding, folding, and so every run keep this up for the prefixes added so far
(`SetReduction.Serves.run`), in whatever order the commands come.

* **Soundness** (`Reduction.soundness`): after every run each prefix ever added lies in exactly one
  block, the blocks are in ascending order and have no address in common, and each of them contains
  a prefix that was added. So each address of an input of an aggregation is in exactly one block.
-/

namespace CidrCover

/-! ### Serving -/

namespace SetReduction

/-- Every prefix of the list is held, and every member contains one. -/
structure Serves (s : SetReduction) (ps : List Prefix) : Prop where
  holds : ∀ p ∈ ps, s.blocks.Holds p
  needed : ∀ b ∈ s.blocks.members, ∃ p ∈ ps, b.contains p

variable {s : SetReduction} {ps : List Prefix} {p : Prefix} {n : Nat}

/-- The empty set serves no prefix. -/
theorem serves_empty : Serves empty [] where
  holds _ hp := absurd hp List.not_mem_nil
  needed _ hb := absurd hb (Finset.notMem_empty _)

namespace Serves

/-- After adding a prefix the set serves that one as well. -/
theorem add (h : Serves s ps) (p : Prefix) : Serves (s.add p) (ps ++ [p]) where
  holds := by
    intro q hq
    rcases List.mem_append.mp hq with hq | hq
    · exact Antichain.holds_add.mpr (Or.inl (h.holds q hq))
    · obtain rfl := List.mem_singleton.mp hq
      exact Antichain.holds_add.mpr (Or.inr q.contains_refl)
  needed := by
    intro b hb
    rcases Antichain.mem_of_mem_add hb with rfl | hb
    · exact ⟨b, List.mem_append_right ps List.mem_cons_self, b.contains_refl⟩
    · obtain ⟨q, hq, hbq⟩ := h.needed b hb
      exact ⟨q, List.mem_append_left _ hq, hbq⟩

/-- The parent contains the greatest member, and with it what that contains. -/
theorem fold (h : Serves s ps) (hf : s.blocks.Foldable) : Serves (s.fold hf) ps where
  holds p hp := Antichain.holds_fold hf (h.holds p hp)
  needed := by
    intro b hb
    rcases (Antichain.mem_fold hf).mp hb with rfl | ⟨hb, -⟩
    · obtain ⟨p, hp, hgp⟩ := h.needed _ (Antichain.greatest_mem hf)
      exact ⟨p, hp, Prefix.contains_trans (Prefix.parent_contains _) hgp⟩
    · exact h.needed b hb

/-- A step keeps up what the set serves. -/
theorem step (h : Serves s ps) (n : Nat) : Serves (s.step n).1 ps := by
  by_cases hn : s.blocks.Finished n
  · rw [step_of_finished hn]
    exact h
  · rw [step_of_not_finished hn]
    exact h.fold _

/-- Reducing keeps up what the set serves. -/
theorem reduce (h : Serves s ps) (n : Nat) : Serves (s.reduce n) ps := by
  induction s using reduce_induction n with
  | finished s hn => rwa [reduce_of_finished hn]
  | fold s hn ih =>
    rw [reduce_of_not_finished hn]
    exact ih (h.fold _)

/-- A set to which prefixes are added serves all of them. -/
theorem foldl_add (h : Serves s ps) (qs : List Prefix) :
    Serves (qs.foldl SetReduction.add s) (ps ++ qs) := by
  induction qs generalizing s ps with
  | nil => rwa [List.append_nil]
  | cons q qs ih =>
    rw [List.append_cons]
    exact ih (h.add q)

/-- After a run the set serves what it has served and what the run has added. -/
theorem run (h : Serves s ps) (cmds : List Command) :
    Serves (s.run cmds) (ps ++ Command.added cmds) := by
  induction cmds generalizing s ps with
  | nil => rwa [Command.added, List.append_nil]
  | cons c cmds ih =>
    cases c with
    | add p =>
      rw [Command.added, List.append_cons]
      exact ih (h.add p)
    | step n => exact ih (h.step n)
    | reduce n => exact ih (h.reduce n)

end Serves

/-- The set of a list serves the list. -/
theorem serves_ofPrefixes (ps : List Prefix) : Serves (ofPrefixes ps) ps :=
  serves_empty.foldl_add ps

end SetReduction

/-! ### Soundness of blocks -/

/-- The blocks have each prefix of the list in exactly one of them, strictly ascend, have no address
in common, and are all needed. -/
structure Sound (blocks ps : List Prefix) : Prop where
  once : ∀ p ∈ ps, blocks.countP (·.contains p) = 1
  ascending : blocks.Pairwise (· < ·)
  apart : blocks.Pairwise
    fun b c => ∀ a, ¬ (b.containsAddress a = true ∧ c.containsAddress a = true)
  needed : ∀ b ∈ blocks, ∃ p ∈ ps, b.contains p

/-- The blocks of a set that serves a list are sound for it. -/
theorem SetReduction.Serves.sound {s : SetReduction} {ps : List Prefix} (h : Serves s ps) :
    Sound s.blocks.toList ps where
  once p hp := Antichain.countP_contains (h.holds p hp)
  ascending := s.blocks.ascending_toList
  apart := s.blocks.apart_toList
  needed b hb := h.needed b (Antichain.mem_toList.mp hb)

namespace Reduction

/-- After any run the blocks are sound for all that has been given. -/
theorem sound_run (ps : List Prefix) (cmds : List Command) :
    Sound ((ofPrefixes ps).run cmds).blocks (ps ++ Command.added cmds) := by
  rw [(simulates_run ps cmds).blocks_eq]
  exact ((SetReduction.serves_ofPrefixes ps).run cmds).sound

/-- **Soundness**: of all runs, and of all aggregations, address by address. -/
theorem soundness :
    (∀ (ps : List Prefix) (cmds : List Command),
      Sound ((ofPrefixes ps).run cmds).blocks (ps ++ Command.added cmds)) ∧
    ∀ (ps : List Prefix) (n : Nat), 1 ≤ n →
      ∃ a, (aggregatePrefixes ps n).outcome = .ok a ∧
        (∀ p ∈ ps, ∀ x, p.containsAddress x → a.blocks.countP (·.containsAddress x) = 1) ∧
        ∀ b ∈ a.blocks, ∃ p ∈ ps, b.contains p := by
  refine ⟨sound_run, fun ps n hn => ?_⟩
  have hserves := (SetReduction.serves_ofPrefixes ps).reduce n
  refine ⟨_, outcome_aggregatePrefixes ps hn, ?_, hserves.sound.needed⟩
  intro p hp x hx
  exact Antichain.countP_containsAddress (hserves.holds p hp) hx

/-- Two neighbours, one of them given twice, in a single block. -/
theorem soundness_of_neighbours :
    1 ≤ 1 ∧ (Prefix.host 10).containsAddress 10 ∧
      ∃ a, (aggregatePrefixes [.host 10, .host 11, .host 10] 1).outcome = .ok a ∧
        a.blocks.countP (·.containsAddress 10) = 1 ∧
        ∀ b ∈ a.blocks, ∃ p ∈ [Prefix.host 10, .host 11, .host 10], b.contains p := by
  have hhost : (Prefix.host 10).containsAddress 10 := by decide
  obtain ⟨a, ha, honce, hneeded⟩ :=
    soundness.2 [.host 10, .host 11, .host 10] 1 (Nat.le_refl 1)
  exact ⟨Nat.le_refl 1, hhost, a, ha, honce _ List.mem_cons_self _ hhost, hneeded⟩

end Reduction

end CidrCover
