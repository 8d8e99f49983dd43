import Mathlib.Data.List.Basic

/-! Parsers that read a buffer through a cursor. -/

/-- From a position in the buffer, a value and the position after it, or an error. -/
abbrev Cursor (ε α : Type) := StateT Nat (Except ε) α

namespace Cursor

variable {σ ε α β : Type}

/-- The next `n` symbols; `short need have` is the error of a buffer that ends before. -/
def take (short : Nat → Nat → ε) (buf : List σ) (n : Nat) : Cursor ε (List σ) := fun pos =>
  if buf.length < pos + n then .error (short (pos + n) buf.length)
  else .ok ((buf.drop pos).take n, pos + n)

/-- Go on exactly when a condition holds. -/
def ensure (holds : Bool) (otherwise : ε) : Cursor ε Unit :=
  if holds then pure () else throw otherwise

/-! ## Runs -/

theorem bind_of_ok {p : Cursor ε α} {f : α → Cursor ε β} {pos pos' : Nat} {a : α}
    (ran : p pos = .ok (a, pos')) : (p >>= f) pos = f a pos' := by
  change (p pos >>= fun r => f r.1 r.2) = _
  rw [ran]
  rfl

/-- A sequence succeeds through a run of each part. -/
theorem bind_eq_ok {p : Cursor ε α} {f : α → Cursor ε β} {pos : Nat} {r : β × Nat} :
    (p >>= f) pos = .ok r ↔ ∃ a pos', p pos = .ok (a, pos') ∧ f a pos' = .ok r := by
  constructor
  · intro ran
    change (p pos >>= fun r => f r.1 r.2) = _ at ran
    cases first : p pos with
    | error e =>
      rw [first] at ran
      cases ran
    | ok result =>
      rw [first] at ran
      exact ⟨result.1, result.2, rfl, ran⟩
  · rintro ⟨a, pos', first, rest⟩
    rw [bind_of_ok first, rest]

theorem pure_eq_ok {a : α} {pos : Nat} {r : α × Nat} :
    (pure a : Cursor ε α) pos = .ok r ↔ r = (a, pos) :=
  ⟨fun ran => (Except.ok.inj ran).symm, fun same => same ▸ rfl⟩

theorem map_eq_ok {p : Cursor ε α} {f : α → β} {pos : Nat} {r : β × Nat} :
    (f <$> p) pos = .ok r ↔ ∃ a pos', p pos = .ok (a, pos') ∧ r = (f a, pos') := by
  rw [map_eq_pure_bind, bind_eq_ok]
  simp only [pure_eq_ok]

theorem take_eq_ok {short : Nat → Nat → ε} {buf : List σ} {n pos : Nat} {r : List σ × Nat} :
    take short buf n pos = .ok r ↔
      pos + n ≤ buf.length ∧ r = ((buf.drop pos).take n, pos + n) := by
  unfold take
  by_cases ends : buf.length < pos + n
  · rw [if_pos ends]
    exact ⟨fun ran => (nomatch ran), fun fits => absurd ends (Nat.not_lt.mpr fits.1)⟩
  · rw [if_neg ends]
    exact ⟨fun ran => ⟨Nat.not_lt.mp ends, (Except.ok.inj ran).symm⟩, fun fits => fits.2 ▸ rfl⟩

theorem ensure_eq_ok {holds : Bool} {otherwise : ε} {pos : Nat} {r : Unit × Nat} :
    ensure holds otherwise pos = .ok r ↔ holds = true ∧ r = ((), pos) := by
  cases holds with
  | false => exact ⟨fun ran => (nomatch ran), fun both => (nomatch both.1)⟩
  | true => exact pure_eq_ok.trans ⟨fun same => ⟨rfl, same⟩, And.right⟩

/-! ## Reading back what was written -/

/-- Wherever the buffer has these symbols, the parser reads exactly them, as this value. -/
def Parses (buf : List σ) (p : Cursor ε α) (symbols : List σ) (a : α) : Prop :=
  ∀ before after, buf = before ++ (symbols ++ after) →
    p before.length = .ok (a, before.length + symbols.length)

theorem Parses.pure {buf : List σ} {a : α} : Parses buf (Pure.pure a : Cursor ε α) [] a :=
  fun _ _ _ => rfl

theorem Parses.bind {buf first rest : List σ} {p : Cursor ε α} {f : α → Cursor ε β} {a : α} {b : β}
    (reads : Parses buf p first a) (readsRest : Parses buf (f a) rest b) :
    Parses buf (p >>= f) (first ++ rest) b := by
  intro before after split
  rw [List.append_assoc] at split
  rw [bind_of_ok (reads before (rest ++ after) split), ← List.length_append,
    readsRest (before ++ first) after (by rw [split, List.append_assoc]), List.length_append,
    List.length_append, Nat.add_assoc]

theorem Parses.map {buf symbols : List σ} {p : Cursor ε α} {a : α} (f : α → β)
    (reads : Parses buf p symbols a) : Parses buf (f <$> p) symbols (f a) := by
  rw [map_eq_pure_bind, ← List.append_nil symbols]
  exact reads.bind .pure

theorem parses_take (short : Nat → Nat → ε) (buf symbols : List σ) :
    Parses buf (take short buf symbols.length) symbols symbols := by
  intro before after split
  refine take_eq_ok.mpr ⟨?_, ?_⟩
  · rw [split, List.length_append, List.length_append]
    omega
  · rw [split, List.drop_left, List.take_left]

theorem parses_ensure {buf : List σ} {holds : Bool} {otherwise : ε} (true_ : holds = true) :
    Parses buf (ensure holds otherwise) [] () :=
  fun _ _ _ => ensure_eq_ok.mpr ⟨true_, rfl⟩

end Cursor
