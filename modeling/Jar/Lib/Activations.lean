import Mathlib.Logic.Relation
import Mathlib.Data.List.Basic
import Mathlib.Order.Nat

/-! Stacks of activations: each entry starts an invocation, called by the one that ran before, or
gives control to one of the callers of the one that ran before. -/

/-- One activation of an invocation. -/
structure Activation where
  /-- The index of the entry that started the invocation. -/
  target : Nat
  /-- The invocation that called it. -/
  owner : Option Nat

namespace Activation

open Relation

/-- The entry at an index is owned by an invocation. -/
def Owns (stack : List Activation) (entry owner : Nat) : Prop :=
  ∃ a, stack[entry]? = some a ∧ a.owner = some owner

/-- The stacks that calls and catches build. -/
inductive Shaped : List Activation → Prop
  | root : Shaped [⟨0, none⟩]
  | call {stack : List Activation} {below : Activation} (shaped : Shaped stack)
      (top : stack.getLast? = some below) : Shaped (stack ++ [⟨stack.length, some below.target⟩])
  | catch {stack : List Activation} {below caught : Activation} {c : Nat} (shaped : Shaped stack)
      (top : stack.getLast? = some below) (caller : TransGen (Owns stack) below.target c)
      (held : stack[c]? = some caught) : Shaped (stack ++ [⟨c, caught.owner⟩])

variable {stack : List Activation}

theorem getElem?_of_getLast? {α : Type} {xs : List α} {x : α} (last : xs.getLast? = some x) :
    xs[xs.length - 1]? = some x := by
  rwa [← List.getLast?_eq_getElem?]

theorem getElem?_append_of_some {α : Type} {xs : List α} {i : Nat} {x : α}
    (found : xs[i]? = some x) (more : List α) : (xs ++ more)[i]? = some x :=
  List.getElem?_append_left (List.getElem?_eq_some_iff.mp found).1 ▸ found

theorem Owns.append {a b : Nat} (owns : Owns stack a b) (more : List Activation) :
    Owns (stack ++ more) a b := by
  obtain ⟨x, found, owner⟩ := owns
  exact ⟨x, getElem?_append_of_some found more, owner⟩

namespace Shaped

theorem ne_nil (shaped : Shaped stack) : stack ≠ [] := by
  cases shaped <;> simp

/-- What holds for the first entry, for calls and for catches, holds for all entries of a stack,
if entries above do not matter. -/
theorem forall_entries {P : List Activation → Nat → Activation → Prop}
    (root : P [⟨0, none⟩] 0 ⟨0, none⟩)
    (call : ∀ stack below, Shaped stack → (∀ i a, stack[i]? = some a → P stack i a) →
      stack.getLast? = some below →
      P (stack ++ [⟨stack.length, some below.target⟩]) stack.length
        ⟨stack.length, some below.target⟩)
    (catch_ : ∀ stack below caught c, Shaped stack → (∀ i a, stack[i]? = some a → P stack i a) →
      stack.getLast? = some below → TransGen (Owns stack) below.target c →
      stack[c]? = some caught →
      P (stack ++ [⟨c, caught.owner⟩]) stack.length ⟨c, caught.owner⟩)
    (append : ∀ stack i a b, stack[i]? = some a → P stack i a → P (stack ++ [b]) i a)
    (shaped : Shaped stack) : ∀ i a, stack[i]? = some a → P stack i a := by
  -- An entry of a grown stack is old, or it is the new one.
  have grow : ∀ {stack : List Activation} {b : Activation},
      (∀ i a, stack[i]? = some a → P stack i a) → P (stack ++ [b]) stack.length b →
      ∀ i a, (stack ++ [b])[i]? = some a → P (stack ++ [b]) i a := by
    intro stack b old new i a found
    rcases Nat.lt_trichotomy i stack.length with below | same | above
    · rw [List.getElem?_append_left below] at found
      exact append stack i a b found (old i a found)
    · subst same
      rw [List.getElem?_concat_length] at found
      exact Option.some.inj found ▸ new
    · rw [List.getElem?_eq_none (by simp; omega)] at found
      cases found
  induction shaped with
  | root =>
    intro i a found
    cases i with
    | zero => cases found; exact root
    | succ i => cases found
  | call shaped top ih => exact grow ih (call _ _ shaped ih top)
  | «catch» shaped top caller held ih => exact grow ih (catch_ _ _ _ _ shaped ih top caller held)

/-- The entry runs an invocation that was started at or below it, and the owner of that one was
started below it. -/
structure Started (stack : List Activation) (i : Nat) (a : Activation) : Prop where
  target_le : a.target ≤ i
  own : ∃ own, stack[a.target]? = some own ∧ own.target = a.target ∧ own.owner = a.owner
  owner_lt : ∀ o, a.owner = some o →
    o < a.target ∧ ∃ own, stack[o]? = some own ∧ own.target = o

theorem Started.append {i : Nat} {a : Activation} (started : Started stack i a)
    (more : List Activation) : Started (stack ++ more) i a := by
  obtain ⟨target_le, ⟨own, held, rest⟩, owner_lt⟩ := started
  refine ⟨target_le, ⟨own, getElem?_append_of_some held more, rest⟩, fun o owner => ?_⟩
  obtain ⟨lower, own, held, same⟩ := owner_lt o owner
  exact ⟨lower, own, getElem?_append_of_some held more, same⟩

theorem owns_of_transGen {a c : Nat} (way : TransGen (Owns stack) a c) : ∃ b, Owns stack b c := by
  cases way with
  | single edge => exact ⟨_, edge⟩
  | tail _ edge => exact ⟨_, edge⟩

theorem started (shaped : Shaped stack) {i : Nat} {a : Activation} (found : stack[i]? = some a) :
    Started stack i a := by
  refine forall_entries (P := Started) ?_ ?_ ?_ ?_ shaped i a found
  · exact ⟨le_refl 0, ⟨⟨0, none⟩, rfl, rfl, rfl⟩, nofun⟩
  · intro stack below shaped old top
    refine ⟨le_refl _, ⟨_, List.getElem?_concat_length, rfl, rfl⟩, fun o owner => ?_⟩
    obtain rfl := Option.some.inj owner
    obtain ⟨own, held, same, -⟩ := (old _ _ (getElem?_of_getLast? top)).own
    exact ⟨(List.getElem?_eq_some_iff.mp held).1, own, getElem?_append_of_some held _, same⟩
  · intro stack below caught c shaped old top caller held
    -- The last step of the way leads to an owner, which is an invocation of its own.
    obtain ⟨b, ⟨entry, found, owner⟩⟩ := owns_of_transGen caller
    obtain ⟨-, own, heldOwn, same⟩ := (old _ _ found).owner_lt c owner
    obtain rfl : own = caught := Option.some.inj (heldOwn.symm.trans held)
    refine ⟨le_of_lt (List.getElem?_eq_some_iff.mp held).1,
      ⟨own, getElem?_append_of_some held _, same, rfl⟩, fun o owner => ?_⟩
    obtain ⟨lower, own', held', same'⟩ := (old _ _ held).owner_lt o owner
    exact ⟨same ▸ lower, own', getElem?_append_of_some held' _, same'⟩
  · exact fun stack i a b _ started => started.append [b]

theorem target_le (shaped : Shaped stack) {i : Nat} {a : Activation}
    (found : stack[i]? = some a) : a.target ≤ i := (shaped.started found).target_le

theorem lt_of_owns (shaped : Shaped stack) {a b : Nat} (owns : Owns stack a b) : b < a := by
  obtain ⟨x, found, owner⟩ := owns
  have started := shaped.started found
  exact lt_of_lt_of_le (started.owner_lt b owner).1 started.target_le

theorem lt_of_transGen (shaped : Shaped stack) {a b : Nat} (way : TransGen (Owns stack) a b) :
    b < a := by
  induction way with
  | single owns => exact shaped.lt_of_owns owns
  | tail _ owns ih => exact lt_trans (shaped.lt_of_owns owns) ih

/-! ## Shorter stacks -/

theorem take (shaped : Shaped stack) {n : Nat} (pos : 0 < n) : Shaped (stack.take n) := by
  -- The entries above go one by one.
  induction shaped with
  | root =>
    rw [List.take_of_length_le pos]
    exact root
  | @call stack below shaped top ih =>
    rcases Nat.lt_or_ge stack.length n with above | inside
    · rw [List.take_of_length_le (by simp; omega)]
      exact call shaped top
    · rwa [List.take_append_of_le_length inside]
  | @«catch» stack below caught c shaped top caller held ih =>
    rcases Nat.lt_or_ge stack.length n with above | inside
    · rw [List.take_of_length_le (by simp; omega)]
      exact «catch» shaped top caller held
    · rwa [List.take_append_of_le_length inside]

/-! ## The entry above another -/

/-- What an entry can be, given the one below it. -/
inductive Above (stack : List Activation) (i : Nat) (below : Activation) : Activation → Prop
  | call : Above stack i below ⟨i, some below.target⟩
  | catch {c : Nat} {caught : Activation} (caller : TransGen (Owns stack) below.target c)
      (held : stack[c]? = some caught) : Above stack i below ⟨c, caught.owner⟩

theorem transGen_append {a b : Nat} (way : TransGen (Owns stack) a b) (more : List Activation) :
    TransGen (Owns (stack ++ more)) a b :=
  Relation.TransGen.mono (fun _ _ owns => owns.append more) _ _ way

/-- Every entry but the first is a call or a catch from the one below. -/
theorem above (shaped : Shaped stack) {i : Nat} {a below : Activation}
    (found : stack[i + 1]? = some a) (under : stack[i]? = some below) :
    Above stack (i + 1) below a := by
  have all : ∀ j a, stack[j]? = some a → ∀ i below, j = i + 1 → stack[i]? = some below →
      Above stack j below a := by
    refine forall_entries (P := fun stack j a => ∀ i below, j = i + 1 → stack[i]? = some below →
      Above stack j below a) ?_ ?_ ?_ ?_ shaped
    · intro i below same
      cases same
    · intro stack below shaped _ top i under same found
      rw [List.getElem?_append_left (by omega)] at found
      have last := getElem?_of_getLast? top
      rw [show stack.length - 1 = i by omega, found] at last
      obtain rfl := Option.some.inj last
      exact .call
    · intro stack below caught c shaped _ top caller held i under same found
      rw [List.getElem?_append_left (by omega)] at found
      have last := getElem?_of_getLast? top
      rw [show stack.length - 1 = i by omega, found] at last
      obtain rfl := Option.some.inj last
      exact .catch (transGen_append caller _) (getElem?_append_of_some held _)
    · intro stack j a b found old i below same under
      have inside := (List.getElem?_eq_some_iff.mp found).1
      rw [List.getElem?_append_left (by omega)] at under
      cases old i below same under with
      | call => exact .call
      | «catch» caller held =>
        exact .catch (transGen_append caller _) (getElem?_append_of_some held _)
  exact all (i + 1) a found i below rfl under

/-- An invocation is owned by the one that ran before it. -/
theorem owner_of_call (shaped : Shaped stack) {i : Nat} {a below : Activation}
    (found : stack[i + 1]? = some a) (under : stack[i]? = some below) (own : a.target = i + 1) :
    a.owner = some below.target := by
  cases shaped.above found under with
  | call => rfl
  | «catch» caller held =>
    have lower := shaped.lt_of_transGen caller
    have bounded := shaped.target_le under
    simp only at own
    omega

/-- Every other entry gives control to a caller of the one that ran before it. -/
theorem caller_of_catch (shaped : Shaped stack) {i : Nat} {a below : Activation}
    (found : stack[i + 1]? = some a) (under : stack[i]? = some below) (other : a.target ≠ i + 1) :
    TransGen (Owns stack) below.target a.target := by
  cases shaped.above found under with
  | call => exact absurd rfl other
  | «catch» caller held => exact caller

/-! ## Paths -/

/-- The invocation of an entry, its callers, their callers and so on. -/
def Path (stack : List Activation) (i c : Nat) : Prop :=
  ∃ a, stack[i]? = some a ∧ ReflTransGen (Owns stack) a.target c

/-- What is on the path of a higher entry and was started at or below a lower one is on the path
of that one too. -/
theorem path_of_path (shaped : Shaped stack) {i j c : Nat} (ordered : i ≤ j)
    (path : Path stack j c) (started : c ≤ i) : Path stack i c := by
  induction j, ordered using Nat.le_induction with
  | base => exact path
  | succ j ordered ih =>
    obtain ⟨a, found, way⟩ := path
    have inside := (List.getElem?_eq_some_iff.mp found).1
    have under := List.getElem?_eq_getElem (Nat.lt_of_succ_lt inside)
    apply ih
    refine ⟨_, under, ?_⟩
    cases shaped.above found under with
    | call =>
      -- The path from a call begins at the call, which was started too late, and goes on below.
      rcases ReflTransGen.cases_head way with same | ⟨d, ⟨a, found', owner⟩, way⟩
      · simp only at same
        omega
      · rw [found] at found'
        cases found'
        cases owner
        exact way
    | «catch» caller held => exact caller.to_reflTransGen.trans way

theorem not_path_of_catch (shaped : Shaped stack) {i j : Nat} {a below : Activation}
    (found : stack[i + 1]? = some a) (under : stack[i]? = some below) (caught : a.target ≠ i + 1)
    (ordered : i + 1 ≤ j) : ¬Path stack j below.target := by
  intro path
  have bounded := shaped.target_le under
  obtain ⟨a', found', way⟩ := shaped.path_of_path ordered path (by omega)
  rw [found] at found'
  cases found'
  -- Every invocation on the path is at or below the handler, which is below the other one.
  have lower := shaped.lt_of_transGen (shaped.caller_of_catch found under caught)
  rcases Relation.reflTransGen_iff_eq_or_transGen.mp way with same | way
  · omega
  · have := shaped.lt_of_transGen way
    omega

/-- Everything on a path was started at or below the invocation that it begins with. -/
theorem le_of_path (shaped : Shaped stack) {i c : Nat} {a : Activation} (found : stack[i]? = some a)
    (path : Path stack i c) : c ≤ a.target := by
  obtain ⟨a', found', way⟩ := path
  rw [found] at found'
  cases found'
  rcases Relation.reflTransGen_iff_eq_or_transGen.mp way with same | way
  · exact same.le
  · exact (shaped.lt_of_transGen way).le

end Shaped

/-! ## Invocations whose last activation made a call -/

/-- The last activation of an invocation is at an index, and the entry above it is a call. -/
structure LastCall (stack : List Activation) (c j : Nat) : Prop where
  active : ∃ a, stack[j]? = some a ∧ a.target = c
  last : ∀ i a, j < i → stack[i]? = some a → a.target ≠ c
  calls : ∃ a, stack[j + 1]? = some a ∧ a.target = j + 1

namespace LastCall

variable {c d j : Nat}

theorem lt_length (lastCall : LastCall stack c j) : j + 1 < stack.length := by
  obtain ⟨a, found, -⟩ := lastCall.calls
  exact (List.getElem?_eq_some_iff.mp found).1

theorem ne_top {top : Activation} (last : stack.getLast? = some top)
    (lastCall : LastCall stack c j) : c ≠ top.target := by
  have inside := lastCall.lt_length
  exact (lastCall.last (stack.length - 1) top (by omega) (getElem?_of_getLast? last)).symm

theorem exists_of_caller {below : Activation} (shaped : Shaped stack)
    (last : stack.getLast? = some below) (caller : TransGen (Owns stack) below.target c) :
    ∃ j, LastCall stack c j := by
  classical
  have top := getElem?_of_getLast? last
  have path : Shaped.Path stack (stack.length - 1) c := ⟨below, top, caller.to_reflTransGen⟩
  have lower := shaped.lt_of_transGen caller
  have bounded := shaped.target_le top
  -- The invocation was started, so it has a last activation.
  have started : ∃ a, stack[c]? = some a ∧ a.target = c := by
    obtain ⟨b, a, found, owner⟩ := Shaped.owns_of_transGen caller
    obtain ⟨-, own, found', same⟩ := (shaped.started found).owner_lt c owner
    exact ⟨own, found', same⟩
  have inside : c ≤ stack.length - 1 := by omega
  have active := Nat.findGreatest_spec (P := fun i => ∃ a, stack[i]? = some a ∧ a.target = c) inside
    started
  have greatest := fun k => Nat.findGreatest_is_greatest
    (P := fun i => ∃ a, stack[i]? = some a ∧ a.target = c) (n := stack.length - 1) (k := k)
  generalize Nat.findGreatest (fun i => ∃ a, stack[i]? = some a ∧ a.target = c)
    (stack.length - 1) = j at active greatest
  obtain ⟨a, found, same⟩ := active
  have highest : ∀ i a, j < i → stack[i]? = some a → a.target ≠ c := by
    intro i a above found same
    have := (List.getElem?_eq_some_iff.mp found).1
    exact greatest i above (by omega) ⟨a, found, same⟩
  -- It is not on top, so there is an entry above.
  have below_top : j < stack.length - 1 := by
    by_contra other
    have := (List.getElem?_eq_some_iff.mp found).1
    obtain rfl : j = stack.length - 1 := by omega
    rw [top] at found
    cases found
    omega
  have next := List.getElem?_eq_getElem (show j + 1 < stack.length by omega)
  refine ⟨j, ⟨a, found, same⟩, highest, _, next, ?_⟩
  -- A catch would hide the invocation from everything above.
  by_contra caught
  exact shaped.not_path_of_catch next found caught (by omega) (same ▸ path)

theorem of_call {below own : Activation} (shaped : Shaped stack)
    (last : stack.getLast? = some below) (called : own.target = stack.length) :
    LastCall (stack ++ [own]) below.target (stack.length - 1) := by
  have top := getElem?_of_getLast? last
  have inside := (List.getElem?_eq_some_iff.mp top).1
  have bounded := shaped.target_le top
  have two : stack.length - 1 + 1 = stack.length := by omega
  refine ⟨⟨below, getElem?_append_of_some top _, rfl⟩, fun i a above found => ?_, own, ?_, ?_⟩
  · have := (List.getElem?_eq_some_iff.mp found).1
    rw [List.length_append, List.length_singleton] at this
    obtain rfl : i = stack.length := by omega
    rw [List.getElem?_concat_length] at found
    cases found
    omega
  · rw [two, List.getElem?_concat_length]
  · rw [two, called]

theorem of_append {e : Activation} (lastCall : LastCall (stack ++ [e]) c j)
    (below : j + 1 < stack.length) : LastCall stack c j := by
  have lower : ∀ {i : Nat}, i < stack.length → (stack ++ [e])[i]? = stack[i]? :=
    fun inside => List.getElem?_append_left inside
  obtain ⟨a, found, same⟩ := lastCall.active
  obtain ⟨a', found', called⟩ := lastCall.calls
  refine ⟨⟨a, by rwa [lower (by omega)] at found, same⟩, fun i b above held => ?_,
    a', by rwa [lower below] at found', called⟩
  exact lastCall.last i b above (getElem?_append_of_some held _)

/-- An entry of another invocation on top makes no difference. -/
theorem append {e : Activation} (lastCall : LastCall stack c j) (other : e.target ≠ c) :
    LastCall (stack ++ [e]) c j := by
  obtain ⟨a, found, same⟩ := lastCall.active
  obtain ⟨a', found', called⟩ := lastCall.calls
  refine ⟨⟨a, getElem?_append_of_some found _, same⟩, fun i b above held => ?_,
    a', getElem?_append_of_some found' _, called⟩
  by_cases here : i = stack.length
  · rw [here, List.getElem?_concat_length] at held
    cases held
    exact other
  · have := (List.getElem?_eq_some_iff.mp held).1
    rw [List.length_append, List.length_singleton] at this
    rw [List.getElem?_append_left (by omega)] at held
    exact lastCall.last i b above held

/-- Dropping everything above the invocation on top leaves the calls below it. -/
theorem of_take {top : Activation} (shaped : Shaped stack) (last : stack.getLast? = some top)
    (lastCall : LastCall (stack.take (top.target + 1)) c j) : LastCall stack c j := by
  have onTop := getElem?_of_getLast? last
  have inside := lastCall.lt_length
  rw [List.length_take] at inside
  have lower : ∀ {i : Nat}, i < top.target + 1 → (stack.take (top.target + 1))[i]? = stack[i]? :=
    fun below => List.getElem?_take_of_lt below
  obtain ⟨a, found, same⟩ := lastCall.active
  obtain ⟨a', found', called⟩ := lastCall.calls
  rw [lower (by omega)] at found found'
  refine ⟨⟨a, found, same⟩, fun i b above held => ?_, a', found', called⟩
  by_cases kept : i < top.target + 1
  · exact lastCall.last i b above (by rwa [lower kept])
  · -- What is dropped was called from the invocation on top.
    have started := shaped.target_le found
    have within := (List.getElem?_eq_some_iff.mp held).1
    have path : Shaped.Path stack i top.target :=
      shaped.path_of_path (show i ≤ stack.length - 1 by omega) ⟨top, onTop, .refl⟩ (by omega)
    have := shaped.le_of_path held path
    omega

end LastCall

end Activation
