import CidrCover.Proofs.Reduction.Runs

/-!
# The loop of steps

Reducing is a loop: make steps until one of them has nothing to fold. `after n k` is the state after
`k` steps, and `StopsAfter n k` says that each of the first `k` steps folds and the next one does
not, so that the loop ends there and nowhere else.

* The loop of the specification ends (`SetReduction.exists_stopsAfter`), and it ends where
  `SetReduction.reduce` does (`SetReduction.reduce_eq_after`).
* A reduction stops together with its specification (`Reduction.Simulates.stopsAfter`), and with
  fuel for that many folds it is the loop that `Reduction.reduceWith` carries out
  (`Reduction.reduceWith_eq`).
-/

namespace CidrCover

/-! ### The loop of the specification -/

namespace SetReduction

variable {n k : Nat} {s : SetReduction}

/-- The state after `k` steps. -/
def after (s : SetReduction) (n k : Nat) : SetReduction :=
  (fun t => (t.step n).1)^[k] s

/-- Several steps are a first one and then the others. -/
theorem after_succ (s : SetReduction) (n k : Nat) :
    s.after n (k + 1) = (s.step n).1.after n k := rfl

/-- Each of the first `k` states has something to fold, and the next one does not. -/
structure StopsAfter (s : SetReduction) (n k : Nat) : Prop where
  unfinished : ∀ i < k, ¬ (s.after n i).blocks.Finished n
  finished : (s.after n k).blocks.Finished n

/-- One step more is one fold more. -/
theorem after_succ_eq_fold (h : ¬ (s.after n k).blocks.Finished n) :
    s.after n (k + 1) = (s.after n k).fold (Antichain.foldable_of_not_finished h) := by
  have hlast : s.after n (k + 1) = ((s.after n k).step n).1 := Function.iterate_succ_apply' _ _ _
  rw [hlast, step_of_not_finished h]

/-- Before the end of the loop a step is a fold. -/
theorem fst_step (h : ¬ s.blocks.Finished n) :
    (s.step n).1 = s.fold (Antichain.foldable_of_not_finished h) := by
  rw [step_of_not_finished h]

/-- **The loop ends.** -/
theorem exists_stopsAfter (n : Nat) (s : SetReduction) : ∃ k, s.StopsAfter n k := by
  induction s using reduce_induction n with
  | finished s h => exact ⟨0, fun i hi => absurd hi (Nat.not_lt_zero i), h⟩
  | fold s h ih =>
    obtain ⟨k, hk⟩ := ih
    rw [← fst_step h] at hk
    refine ⟨k + 1, fun i hi => ?_, hk.finished⟩
    cases i with
    | zero => exact h
    | succ i => exact hk.unfinished i (Nat.lt_of_succ_lt_succ hi)

/-- The state in which the loop ends. -/
theorem reduce_eq_after (h : s.StopsAfter n k) : s.reduce n = s.after n k := by
  induction k generalizing s with
  | zero => exact reduce_of_finished h.finished
  | succ k ih =>
    have hs : ¬ s.blocks.Finished n := h.unfinished 0 (Nat.succ_pos k)
    rw [reduce_of_not_finished hs, ← fst_step hs, after_succ]
    exact ih ⟨fun i hi => h.unfinished (i + 1) (Nat.succ_lt_succ hi), h.finished⟩

/-- Until then, steps and folds are the same number. -/
theorem folds_after (h : s.StopsAfter n k) {i : Nat} (hi : i ≤ k) :
    (s.after n i).folds = s.folds + i := by
  induction i with
  | zero => rfl
  | succ i ih =>
    rw [after_succ_eq_fold (h.unfinished i hi)]
    exact congrArg (· + 1) (ih (Nat.le_of_succ_le hi))

end SetReduction

/-! ### The loop of a reduction -/

namespace Reduction

variable {n k fuel : Nat} {r : Reduction} {s : SetReduction}

/-- The state after `k` steps. -/
def after (r : Reduction) (n k : Nat) : Reduction :=
  (fun t => (t.step n).1)^[k] r

/-- Several steps are a first one and then the others. -/
theorem after_succ (r : Reduction) (n k : Nat) :
    r.after n (k + 1) = (r.step n).1.after n k := rfl

/-- Each of the first `k` steps answers that it has made a fold; the next one has none to make, and
leaves the state as it is. -/
structure StopsAfter (r : Reduction) (n k : Nat) : Prop where
  reducing : ∀ i < k, progress ((r.after n i).step n).2 = .reducing
  done : (r.after n k).step n = (r.after n k, none)

/-- A reduction and the specification stay together after any number of steps. -/
theorem Simulates.after (h : Simulates r s) (n k : Nat) :
    Simulates (r.after n k) (s.after n k) := by
  induction k generalizing r s with
  | zero => exact h
  | succ k ih => exact ih (h.step n).1

/-- Corresponding states stop together. -/
theorem Simulates.stopsAfter (h : Simulates r s) (hs : s.StopsAfter n k) : r.StopsAfter n k where
  reducing i hi := by
    rw [((h.after n i).step n).2, SetReduction.step_of_not_finished (hs.unfinished i hi)]
  done := by
    obtain ⟨slot, h⟩ := h.after n k
    exact h.step_of_finished hs.finished

/-- **Fuel for the folds is enough**: with it, and with any more, the loop comes to its end. -/
theorem reduceWith_eq (h : r.StopsAfter n k) (hfuel : k ≤ fuel) :
    (r.reduceWith n fuel).1 = r.after n k := by
  induction k generalizing r fuel with
  | zero =>
    have hdone : r.step n = (r, none) := h.done
    cases fuel with
    | zero => rfl
    | succ fuel =>
      simp only [reduceWith, hdone]
      rfl
  | succ k ih =>
    have hfirst : progress (r.step n).2 = .reducing := h.reducing 0 (Nat.succ_pos k)
    have hrest : (r.step n).1.StopsAfter n k :=
      ⟨fun i hi => h.reducing (i + 1) (Nat.succ_lt_succ hi), h.done⟩
    obtain ⟨fuel, rfl⟩ := Nat.exists_eq_add_one_of_ne_zero (Nat.ne_zero_of_lt hfuel)
    have hnext := ih hrest (Nat.le_of_succ_le_succ hfuel)
    rcases hstep : r.step n with ⟨t, _ | f⟩
    · rw [hstep] at hfirst
      simp [progress] at hfirst
    · rw [hstep] at hnext
      simp only [reduceWith, hstep, hnext, after_succ]

end Reduction

end CidrCover
