import Mathlib.Data.List.Forall2

/-! Computations that return a value, return an error, or panic. -/

/-- `none` is a panic. -/
abbrev Attempt (ε α : Type) := ExceptT ε Option α

namespace Attempt

variable {ε α β : Type}

instance [DecidableEq ε] [DecidableEq α] : DecidableEq (Attempt ε α) :=
  inferInstanceAs (DecidableEq (Option (Except ε α)))

def crash : Attempt ε α := (none : Option (Except ε α))

theorem pure_inj {a b : α} : (pure a : Attempt ε α) = pure b ↔ a = b :=
  ⟨fun same => by cases same; rfl, fun same => same ▸ rfl⟩

theorem throw_ne_pure {e : ε} {a : α} : (throw e : Attempt ε α) ≠ pure a := nofun

theorem crash_ne_pure {a : α} : (crash : Attempt ε α) ≠ pure a := nofun

theorem throw_ne_crash {e : ε} : (throw e : Attempt ε α) ≠ crash := nofun

theorem pure_ne_crash {a : α} : (pure a : Attempt ε α) ≠ crash := nofun

theorem cases (p : Attempt ε α) : p = crash ∨ (∃ e, p = throw e) ∨ ∃ a, p = pure a :=
  match p with
  | none => .inl rfl
  | some (.error e) => .inr (.inl ⟨e, rfl⟩)
  | some (.ok a) => .inr (.inr ⟨a, rfl⟩)

theorem crash_bind {f : α → Attempt ε β} : (crash >>= f : Attempt ε β) = crash := rfl

theorem bind_eq_pure {p : Attempt ε α} {f : α → Attempt ε β} {b : β} :
    p >>= f = pure b ↔ ∃ a, p = pure a ∧ f a = pure b := by
  rcases cases p with rfl | ⟨e, rfl⟩ | ⟨a, rfl⟩
  · exact ⟨fun ran => absurd ran crash_ne_pure, fun ⟨_, ran, _⟩ => absurd ran crash_ne_pure⟩
  · exact ⟨fun ran => absurd ran throw_ne_pure, fun ⟨_, ran, _⟩ => absurd ran throw_ne_pure⟩
  · rw [pure_bind]
    exact ⟨fun ran => ⟨a, rfl, ran⟩, fun ⟨_, same, ran⟩ => pure_inj.mp same ▸ ran⟩

/-- A sequence panics in its first part, or in its second after a value of the first. -/
theorem bind_eq_crash {p : Attempt ε α} {f : α → Attempt ε β} :
    p >>= f = crash ↔ p = crash ∨ ∃ a, p = pure a ∧ f a = crash := by
  rcases cases p with rfl | ⟨e, rfl⟩ | ⟨a, rfl⟩
  · exact ⟨fun _ => .inl rfl, fun _ => rfl⟩
  · refine ⟨fun ran => absurd ran throw_ne_crash, ?_⟩
    rintro (ran | ⟨_, ran, _⟩)
    · exact absurd ran throw_ne_crash
    · exact absurd ran throw_ne_pure
  · rw [pure_bind]
    refine ⟨fun ran => .inr ⟨a, rfl, ran⟩, ?_⟩
    rintro (ran | ⟨_, same, ran⟩)
    · exact absurd ran pure_ne_crash
    · exact pure_inj.mp same ▸ ran

theorem map_eq_pure {p : Attempt ε α} {f : α → β} {b : β} :
    f <$> p = pure b ↔ ∃ a, p = pure a ∧ f a = b := by
  rw [map_eq_pure_bind, bind_eq_pure]
  simp only [pure_inj]

theorem map_eq_crash {p : Attempt ε α} {f : α → β} : f <$> p = crash ↔ p = crash := by
  rw [map_eq_pure_bind, bind_eq_crash]
  exact or_iff_left fun ⟨_, _, ran⟩ => pure_ne_crash ran

theorem ite_throw_eq_pure {c : Prop} [Decidable c] {e : ε} {p : Attempt ε α} {a : α} :
    (if c then throw e else p) = pure a ↔ ¬c ∧ p = pure a := by
  by_cases holds : c
  · rw [if_pos holds]
    exact ⟨fun ran => absurd ran throw_ne_pure, fun both => absurd holds both.1⟩
  · rw [if_neg holds]
    exact ⟨fun ran => ⟨holds, ran⟩, And.right⟩

theorem mapM_eq_pure {f : α → Attempt ε β} {xs : List α} {ys : List β} :
    xs.mapM f = pure ys ↔ List.Forall₂ (fun x y => f x = pure y) xs ys := by
  induction xs generalizing ys with
  | nil =>
    rw [List.mapM_nil, pure_inj, List.forall₂_nil_left_iff]
    exact eq_comm
  | cons x xs ih =>
    rw [List.mapM_cons, bind_eq_pure]
    constructor
    · rintro ⟨y, first, ran⟩
      obtain ⟨rest, others, ran⟩ := bind_eq_pure.mp ran
      rw [← pure_inj.mp ran]
      exact .cons first (ih.mp others)
    · rintro (_ | ⟨first, others⟩)
      exact ⟨_, first, bind_eq_pure.mpr ⟨_, ih.mpr others, rfl⟩⟩

/-- A list of computations panics only if one of them does. -/
theorem mapM_ne_crash {f : α → Attempt ε β} {xs : List α} (each : ∀ x ∈ xs, f x ≠ crash) :
    xs.mapM f ≠ crash := by
  induction xs with
  | nil => exact pure_ne_crash
  | cons x xs ih =>
    obtain ⟨first, others⟩ := List.forall_mem_cons.mp each
    rw [List.mapM_cons]
    intro ran
    rcases bind_eq_crash.mp ran with ran | ⟨_, -, ran⟩
    · exact first ran
    · rcases bind_eq_crash.mp ran with ran | ⟨_, -, ran⟩
      · exact ih others ran
      · exact pure_ne_crash ran

/-! ## Outcomes -/

/-- What a computation comes to: a value, an error, or a panic, each within its bounds. -/
def Ends (returns : α → Prop) (fails : ε → Prop) (panics : Prop) : Attempt ε α → Prop
  | none => panics
  | some (.error e) => fails e
  | some (.ok a) => returns a

namespace Ends

variable {P : α → Prop} {Q : β → Prop} {F : ε → Prop} {M : Prop} {p : Attempt ε α}

theorem pure {a : α} (holds : P a) : Ends P F M (Pure.pure a : Attempt ε α) := holds

theorem throw {e : ε} (holds : F e) : Ends P F M (MonadExcept.throw e : Attempt ε α) := holds

theorem crash (holds : M) : Ends P F M (Attempt.crash : Attempt ε α) := holds

/-- A sequence ends as its second part does, after each value of the first. -/
theorem bind {f : α → Attempt ε β} (first : Ends P F M p) (rest : ∀ a, P a → Ends Q F M (f a)) :
    Ends Q F M (p >>= f) := by
  rcases Attempt.cases p with rfl | ⟨e, rfl⟩ | ⟨a, rfl⟩
  · exact first
  · exact first
  · rw [pure_bind]
    exact rest a first

theorem mono {P' : α → Prop} (ends : Ends P F M p) (weaker : ∀ a, P a → P' a) :
    Ends P' F M p := by
  rcases Attempt.cases p with rfl | ⟨e, rfl⟩ | ⟨a, rfl⟩
  · exact ends
  · exact ends
  · exact weaker a ends

/-- Besides its bounds, a value is what the computation returns. -/
theorem returns_self (ends : Ends P F M p) :
    Ends (fun a => p = Pure.pure a ∧ P a) F M p := by
  rcases Attempt.cases p with rfl | ⟨e, rfl⟩ | ⟨a, rfl⟩
  · exact ends
  · exact ends
  · exact ⟨rfl, ends⟩

theorem of_pure {a : α} (ends : Ends P F M p) (ran : p = Pure.pure a) : P a := by
  rw [ran] at ends
  exact ends

theorem of_throw {e : ε} (ends : Ends P F M p) (ran : p = MonadExcept.throw e) : F e := by
  rw [ran] at ends
  exact ends

theorem of_crash (ends : Ends P F M p) (ran : p = Attempt.crash) : M := by
  rw [ran] at ends
  exact ends

end Ends

end Attempt
