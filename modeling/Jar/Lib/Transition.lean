import Mathlib.Data.Nat.Init

/-! Runs of a partial step function, with the induction rules that carry an invariant. -/

namespace Transition

variable {State : Type*} (next : State → Option State)

/-- The state after a number of steps, absent when the run ended before. -/
def runFor : Nat → State → Option State
  | 0, s => some s
  | n + 1, s => (runFor n s).bind next

variable {next}

@[simp] theorem runFor_zero (s : State) : runFor next 0 s = some s := rfl

theorem runFor_succ_eq_some {n : Nat} {s t : State} :
    runFor next (n + 1) s = some t ↔ ∃ u, runFor next n s = some u ∧ next u = some t := by
  simp [runFor, Option.bind_eq_some_iff]

theorem runFor_succ_eq (n : Nat) (s : State) :
    runFor next (n + 1) s = (next s).bind (runFor next n) := by
  induction n with
  | zero => simp [runFor]
  | succ n ih =>
    rw [runFor, ih, Option.bind_assoc]
    rfl

/-- Runs of two step functions correspond along a map that their steps correspond along. -/
theorem runFor_map {Image : Type*} {next' : Image → Option Image} (f : State → Image)
    (steps : ∀ u, next' (f u) = (next u).map f) (n : Nat) (s : State) :
    runFor next' n (f s) = (runFor next n s).map f := by
  induction n with
  | zero => rfl
  | succ n ih =>
    rw [runFor, ih, runFor, Option.bind_map, Option.map_bind]
    exact congrArg _ (funext steps)

/-- What holds initially and is preserved by every step holds along every run. -/
theorem runFor_invariant {I : State → Prop} {s : State} (initial : I s)
    (preserved : ∀ u t, I u → next u = some t → I t) {n : Nat} {t : State}
    (ran : runFor next n s = some t) : I t := by
  induction n generalizing t with
  | zero =>
    cases ran
    exact initial
  | succ n ih =>
    obtain ⟨u, before, stepped⟩ := runFor_succ_eq_some.mp ran
    exact preserved u t (ih before) stepped

/-- A quantity that no step from an invariant state increases never grows along a run. -/
theorem runFor_antitone {I : State → Prop} {s : State} (initial : I s)
    (preserved : ∀ u t, I u → next u = some t → I t) {f : State → Nat}
    (decreasing : ∀ u t, I u → next u = some t → f t ≤ f u) {m n : Nat}
    {u t : State} (earlier : runFor next m s = some u) (later : runFor next n s = some t)
    (ordered : m ≤ n) : f t ≤ f u := by
  induction n, ordered using Nat.le_induction generalizing t with
  | base =>
    have same : u = t := Option.some.inj (earlier.symm.trans later)
    simp [same]
  | succ n _ ih =>
    obtain ⟨v, before, stepped⟩ := runFor_succ_eq_some.mp later
    have kept := runFor_invariant initial preserved before
    exact Nat.le_trans (decreasing v t kept stepped) (ih before)

/-- A quantity that every step from an invariant state decreases bounds the length of a run. -/
theorem runFor_bounded {I : State → Prop} {s : State} (initial : I s)
    (preserved : ∀ u t, I u → next u = some t → I t) {f : State → Nat}
    (decreasing : ∀ u t, I u → next u = some t → f t < f u) {n : Nat} {t : State}
    (ran : runFor next n s = some t) : n + f t ≤ f s := by
  induction n generalizing t with
  | zero =>
    cases ran
    exact Nat.le_of_eq (Nat.zero_add _)
  | succ n ih =>
    obtain ⟨u, before, stepped⟩ := runFor_succ_eq_some.mp ran
    have less := decreasing u t (runFor_invariant initial preserved before) stepped
    have left := ih before
    omega

end Transition
