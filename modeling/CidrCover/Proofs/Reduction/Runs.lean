import CidrCover.Proofs.Reduction.Simulation

/-!
# Runs of a reduction

A run is a sequence of commands: to add a prefix, to make a step, or to reduce, each with a budget
of its own, in any order. The same run can be made of a `Reduction` and of a `SetReduction`; a trace
is what can be seen after each command.

* **A reduction is its specification** (`Reduction.trace_eq`): the trie, the table and the arena
  below them show the same traces as a set and a counter.
* `Reduction.simulates_run`: so what is proved of all runs of a `SetReduction` holds of all runs of
  a `Reduction`.
-/

namespace CidrCover

/-- What can be done to a set of prefixes. -/
inductive Command where
  | add (p : Prefix)
  | step (n : Nat)
  | reduce (n : Nat)

/-- The prefixes that a run adds, in their order. -/
def Command.added : List Command → List Prefix
  | [] => []
  | .add p :: cmds => p :: added cmds
  | .step _ :: cmds => added cmds
  | .reduce _ :: cmds => added cmds

/-- What can be seen after a command. -/
structure Observation where
  /-- The members in ascending order. -/
  blocks : List Prefix
  leafCount : Nat
  folds : Nat
  /-- The answer, if the command gives one. -/
  answer : Option Progress
  deriving DecidableEq

/-! ### Runs of the specification -/

namespace SetReduction

/-- Carries out a command. -/
def perform (s : SetReduction) : Command → SetReduction × Option Progress
  | .add p => (s.add p, none)
  | .step n => ((s.step n).1, some (s.step n).2)
  | .reduce n => (s.reduce n, none)

/-- Carries out commands in turn. -/
def run (s : SetReduction) (cmds : List Command) : SetReduction :=
  cmds.foldl (fun s c => (s.perform c).1) s

/-- What can be seen of a set. -/
def observe (s : SetReduction) (answer : Option Progress) : Observation where
  blocks := s.blocks.toList
  leafCount := s.blocks.members.card
  folds := s.folds
  answer := answer

/-- What can be seen after each of some commands. -/
def trace (s : SetReduction) : List Command → List Observation
  | [] => []
  | c :: cmds => (s.perform c).1.observe (s.perform c).2 :: (s.perform c).1.trace cmds

end SetReduction

/-! ### Runs of a reduction -/

namespace Reduction

/-- Carries out a command. -/
def perform (r : Reduction) : Command → Reduction × Option Progress
  | .add p => ((r.add p).1, none)
  | .step n => ((r.step n).1, some (progress (r.step n).2))
  | .reduce n => ((r.reduce n).1, none)

/-- Carries out commands in turn. -/
def run (r : Reduction) (cmds : List Command) : Reduction :=
  cmds.foldl (fun r c => (r.perform c).1) r

/-- What can be seen of a reduction. -/
def observe (r : Reduction) (answer : Option Progress) : Observation where
  blocks := r.blocks
  leafCount := r.leafCount
  folds := r.folds
  answer := answer

/-- What can be seen after each of some commands. -/
def trace (r : Reduction) : List Command → List Observation
  | [] => []
  | c :: cmds => (r.perform c).1.observe (r.perform c).2 :: (r.perform c).1.trace cmds

variable {r : Reduction} {s : SetReduction}

/-! ### One command -/

/-- After a command the states correspond again, and the answers are the same. -/
theorem Simulates.perform (h : Simulates r s) (c : Command) :
    Simulates (r.perform c).1 (s.perform c).1 ∧ (r.perform c).2 = (s.perform c).2 := by
  cases c with
  | add p => exact ⟨h.add p, rfl⟩
  | step n =>
    obtain ⟨hstep, hanswer⟩ := h.step n
    exact ⟨hstep, congrArg some hanswer⟩
  | reduce n => exact ⟨h.reduce n, rfl⟩

/-- Corresponding states look alike. -/
theorem Simulates.observe (h : Simulates r s) (answer : Option Progress) :
    r.observe answer = s.observe answer := by
  unfold Reduction.observe SetReduction.observe
  rw [h.blocks_eq, h.leafCount_eq, h.folds_eq]

/-! ### All runs -/

/-- A reduction and the specification stay together along every run. -/
theorem Simulates.run (h : Simulates r s) (cmds : List Command) :
    Simulates (r.run cmds) (s.run cmds) := by
  induction cmds generalizing r s with
  | nil => exact h
  | cons c cmds ih => exact ih (h.perform c).1

/-- A reduction and the specification give the same answers to every list of commands. -/
theorem Simulates.trace (h : Simulates r s) (cmds : List Command) :
    r.trace cmds = s.trace cmds := by
  induction cmds generalizing r s with
  | nil => rfl
  | cons c cmds ih =>
    obtain ⟨hstate, hanswer⟩ := h.perform c
    simp only [Reduction.trace, SetReduction.trace]
    rw [hanswer, hstate.observe, ih hstate]

/-- A set of prefixes added in turn, and the commands of a run after that. -/
theorem simulates_run (ps : List Prefix) (cmds : List Command) :
    Simulates ((ofPrefixes ps).run cmds) ((SetReduction.ofPrefixes ps).run cmds) :=
  (simulates_ofPrefixes ps).run cmds

/-- **A reduction is its specification**: along every run the two show the same. -/
theorem trace_eq (cmds : List Command) : empty.trace cmds = SetReduction.empty.trace cmds :=
  simulates_empty.trace cmds

-- two neighbours are folded, a third host comes in after that, and a budget of zero ends at the
-- root
example :
    (empty.trace [.add (.host 10), .add (.host 11), .step 1, .add (.host 13), .reduce 0]).map
        (·.blocks) =
      [[.host 10], [.host 10, .host 11], [(Prefix.host 10).parent],
        [(Prefix.host 10).parent, .host 13], [.root]] := by
  decide +kernel

end Reduction

end CidrCover
