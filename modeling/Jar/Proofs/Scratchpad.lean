import Jar.Proofs.FrameChanges

/-! The scratchpad of a frame that waits for a call is empty: the call took it, and nothing arrives
before the frame runs again. -/

namespace Jar.Kernel

open Javm Ssz Relation
open scoped Word

variable {Runtime : Type}

/-! ## Frames that wait for a call -/

/-- An invocation waits for a call that its last activation made. -/
def WaitsForCall (stack : List (Entry Runtime)) (c : Nat) : Prop :=
  ∃ j, Activation.LastCall (activations stack) c j

/-- The scratchpads of all frames that wait for a call are empty. -/
def ScratchpadsEmpty (stack : List (Entry Runtime)) : Prop :=
  ∀ c f, WaitsForCall stack c → frameOf stack c = some f → f.slots.peekKey scratchpadSlot = none

section

variable {stack : List (Entry Runtime)} {top : Entry Runtime} {c : Nat}
  {f frame : KernelFrame Runtime}

theorem WaitsForCall.ne_top (last : stack.getLast? = some top) (waits : WaitsForCall stack c) :
    c ≠ top.target := by
  obtain ⟨j, lastCall⟩ := waits
  exact lastCall.ne_top (getLast?_activations last)

theorem WaitsForCall.of_caller (shape : StackShape stack) (last : stack.getLast? = some top)
    (caller : TransGen (Activation.Owns (activations stack)) top.target c) :
    WaitsForCall stack c :=
  Activation.LastCall.exists_of_caller shape.shaped (getLast?_activations last) caller

theorem WaitsForCall.of_own {base : List (Entry Runtime)} {e below : Entry Runtime}
    (shape : StackShape (base ++ [e])) (own : ownFrame e = some f)
    (last : base.getLast? = some below) : WaitsForCall (base ++ [e]) below.target := by
  have found : (base ++ [e])[base.length]? = some e := List.getElem?_concat_length
  have called := (shape.own _ e found).mp (by rw [own]; rfl)
  have nonempty : base ≠ [] := fun empty => by rw [empty] at last; cases last
  have shape' := shape.take (List.length_pos_iff.mpr nonempty)
  rw [List.take_left] at shape'
  refine ⟨(activations base).length - 1, ?_⟩
  rw [activations_concat]
  refine Activation.LastCall.of_call shape'.shaped (getLast?_activations last) ?_
  rw [length_activations]
  exact called

/-- Popping the entry on top leaves the frames that wait, but for that of the entry. -/
theorem WaitsForCall.append {base : List (Entry Runtime)} {e : Entry Runtime}
    (waits : WaitsForCall base c) (other : e.target ≠ c) : WaitsForCall (base ++ [e]) c := by
  obtain ⟨j, lastCall⟩ := waits
  refine ⟨j, ?_⟩
  rw [activations_concat]
  exact lastCall.append other

namespace ScratchpadsEmpty

theorem putTop (empty : ScratchpadsEmpty stack) (last : stack.getLast? = some top) :
    ScratchpadsEmpty (putFrame stack top.target frame) := by
  intro c f waits held
  unfold WaitsForCall at waits
  rw [activations_putFrame] at waits
  rw [frameOf_putFrame_ne (WaitsForCall.ne_top last waits)] at held
  exact empty c f waits held

theorem withGas (empty : ScratchpadsEmpty stack) (i : Nat) (gas : FrameGas) :
    ScratchpadsEmpty (withGas stack i gas) := by
  intro c f waits held
  unfold WaitsForCall at waits
  rw [activations_withGas] at waits
  rw [frameOf_withGas] at held
  exact empty c f waits held

theorem caught {payload : Option (InstanceCap Cap)} {t : Nat} {stack' : List (Entry Runtime)}
    (empty : ScratchpadsEmpty stack) (caught : Caught stack t payload stack') :
    ScratchpadsEmpty stack' := by
  cases caught with
  | @mk c e f caller found held =>
    intro d g waits heldNew
    have other : d ≠ c := waits.ne_top List.getLast?_concat
    obtain ⟨j, lastCall⟩ := waits
    rw [activations_concat, activations_putFrame] at lastCall
    -- The new entry is no call.
    have below : j + 1 < (activations stack).length := by
      have inside := lastCall.lt_length
      rw [List.length_append, List.length_singleton] at inside
      by_contra top
      have here : j + 1 = (activations stack).length := by omega
      obtain ⟨a, foundTop, called⟩ := lastCall.calls
      rw [here, List.getElem?_concat_length] at foundTop
      cases foundTop
      have := lt_length_of_frameOf held
      rw [← length_activations] at this
      simp only at called
      omega
    rw [frameOf_concat] at heldNew
    split at heldNew
    · cases heldNew
    · rw [frameOf_putFrame_ne other] at heldNew
      exact empty d g ⟨j, lastCall.of_append below⟩ heldNew

theorem called {e : Entry Runtime} (empty : ScratchpadsEmpty stack)
    (last : stack.getLast? = some top) (held : frameOf stack top.target = some f)
    (own : e.target = stack.length) (taken : frame.slots.peekKey scratchpadSlot = none) :
    ScratchpadsEmpty (putFrame stack top.target frame ++ [e]) := by
  intro d g waits heldNew
  have other : d ≠ stack.length := own ▸ waits.ne_top List.getLast?_concat
  obtain ⟨j, lastCall⟩ := waits
  rw [activations_concat, activations_putFrame] at lastCall
  rw [frameOf_concat, length_putFrame, if_neg other] at heldNew
  by_cases below : j + 1 < (activations stack).length
  · have waits : WaitsForCall stack d := ⟨j, lastCall.of_append below⟩
    rw [frameOf_putFrame_ne (waits.ne_top last)] at heldNew
    exact empty d g waits heldNew
  · -- This is the caller itself.
    have inside := lastCall.lt_length
    rw [List.length_append, List.length_singleton] at inside
    have top_ : j = (activations stack).length - 1 := by omega
    obtain ⟨a, found, rfl⟩ := lastCall.active
    rw [top_, List.getElem?_append_left (by omega),
      Activation.getElem?_of_getLast? (getLast?_activations last)] at found
    cases found
    rw [frameOf_putFrame_self held] at heldNew
    cases heldNew
    exact taken

theorem returned {rearmCow : Runtime → List Nat → Runtime} {value : Word64}
    {stack' : List (Entry Runtime)} (empty : ScratchpadsEmpty stack) (shape : StackShape stack)
    (returned : Returned rearmCow value stack stack') : ScratchpadsEmpty stack' := by
  cases returned with
  | @mk base e below popped parent k own last held origin =>
    have found : (base ++ [e])[base.length]? = some e := List.getElem?_concat_length
    have called : e.target = base.length := (shape.own _ e found).mp (by rw [own]; rfl)
    -- Nothing changes for the frames below the caller.
    have empty' : ScratchpadsEmpty base := by
      intro c f waits held
      have inside := lt_length_of_frameOf held
      refine empty c f (waits.append (by omega)) ?_
      rw [frameOf_append inside, held]
    exact empty'.putTop last

theorem dropped (empty : ScratchpadsEmpty stack) (shape : StackShape stack)
    (last : stack.getLast? = some top) : ScratchpadsEmpty (dropped stack (top.target + 1)) := by
  intro c f waits held
  obtain ⟨j, lastCall⟩ := waits
  have kept : activations (Kernel.dropped stack (top.target + 1)) =
      (activations stack).take (top.target + 1) := by
    rw [Kernel.dropped, activations, List.map_take]
    exact congrArg _ (activations_released _)
  rw [kept] at lastCall
  obtain ⟨-, old, heldOld, same, -⟩ := frameOf_dropped held
  rw [same]
  exact empty c old ⟨j, lastCall.of_take shape.shaped (getLast?_activations last)⟩ heldOld

theorem unpaid {env : Env} {pc : BitVec 32} {stack' : List (Entry Runtime)}
    (empty : ScratchpadsEmpty stack) (unpaid : Unpaid env stack pc stack') :
    ScratchpadsEmpty stack' := by
  cases unpaid with
  | retried last held next => exact (empty.putTop last).withGas _ _
  | starved last held exhausted primary handle caught =>
    exact ((empty.putTop last).withGas _ _).caught caught

theorem resumed {below : Entry Runtime} {handler yielder given : KernelFrame Runtime}
    (empty : ScratchpadsEmpty stack) (integrity : Integrity stack)
    (last : stack.getLast? = some top) (other : top.target ≠ stack.length - 1)
    (held : frameOf stack top.target = some handler)
    (under : stack.dropLast.getLast? = some below)
    (waiting : frameOf stack below.target = some yielder) (lower : top.target < below.target)
    (taken : frame.slots.peekKey scratchpadSlot = none) :
    ScratchpadsEmpty (putFrame (putFrame stack.dropLast top.target frame) below.target given) := by
  obtain ⟨handlerHeld, yielderHeld⟩ :=
    integrity.frames_dropLast last other held under waiting lower
  intro d g waits heldNew
  unfold WaitsForCall at waits
  rw [activations_putFrame, activations_putFrame] at waits
  have notBelow : d ≠ below.target := WaitsForCall.ne_top under waits
  rw [frameOf_putFrame_ne notBelow] at heldNew
  by_cases handles : d = top.target
  · rw [handles, frameOf_putFrame_self handlerHeld] at heldNew
    cases heldNew
    exact taken
  · rw [frameOf_putFrame_ne handles] at heldNew
    obtain ⟨base, rfl⟩ := List.getLast?_eq_some_iff.mp last
    rw [List.dropLast_concat] at waits heldNew
    refine empty d g (WaitsForCall.append waits (Ne.symm handles)) ?_
    rw [frameOf_append (lt_length_of_frameOf heldNew), heldNew]

theorem effect {env : Env} {rearmCow : Runtime → List Nat → Runtime} {s s' : Task Runtime}
    {info : ExitInfo} (empty : ScratchpadsEmpty s.stack) (integrity : Integrity s.stack)
    (effect : Effect env rearmCow s info s') : ScratchpadsEmpty s'.stack := by
  -- The scratchpad is empty once it is taken.
  have taken : ∀ f : KernelFrame Runtime, f.Resident →
      (putSlot f scratchpadSlot none).slots.peekKey scratchpadSlot = none := by
    intro f resident
    rw [slots_putSlot resident, CNodeCap.peekKey_setKey_self]
  cases effect with
  | edited last held asked edit => exact empty.putTop last
  | metered last held asked named => exact empty.putTop last
  | yielded last held asked named other read caught => exact empty.caught caught
  | replied finishes last own returned => exact empty.returned integrity.toStackShape returned
  | unwound finishes last other returned =>
    exact (empty.dropped integrity.toStackShape last).returned
      (integrity.dropped (Nat.succ_pos _)).toStackShape returned
  | resumed last other asked held under waiting lower =>
    exact empty.resumed integrity last other held under waiting lower
      (taken _ (integrity.resident held))
  | dropped last other asked => exact empty.dropped integrity.toStackShape last
  | called last held asked calls funded =>
    exact empty.called last held rfl (taken _ (calls.resident (integrity.resident held)).1)

theorem handled {env : Env} {rearmCow : Runtime → List Nat → Runtime} {s s' : Task Runtime}
    {info : ExitInfo} (empty : ScratchpadsEmpty s.stack) (integrity : Integrity s.stack)
    (handled : Handled env rearmCow s info (.resume, s')) : ScratchpadsEmpty s'.stack := by
  cases handled with
  | halted reason handles => exact empty.effect integrity handles
  | @paid cost _ pays nonneg handles =>
    have empty' : ScratchpadsEmpty (charge s cost).stack := empty
    exact empty'.effect integrity handles
  | unpaid why free unpaid => exact empty.unpaid unpaid

theorem ranTop {env : Env} {machine : KernelMachine Runtime} {t s : Task Runtime} {info : ExitInfo}
    (empty : ScratchpadsEmpty t.stack) (ran : RanTop env machine t info s) :
    ScratchpadsEmpty s.stack := by
  cases ran with
  | mk last held table ran => exact empty.putTop last

theorem root (e : Entry Runtime) : ScratchpadsEmpty [e] := by
  intro c f waits held
  obtain ⟨j, lastCall⟩ := waits
  have := lastCall.lt_length
  simp [activations] at this

end ScratchpadsEmpty

end

/-- The scratchpads of the frames that wait for a call are empty in every reachable task. -/
theorem Reachable.scratchpadsEmpty {env : Env} {machine : KernelMachine Runtime} {t : Task Runtime}
    (reached : Reachable env machine t) : ScratchpadsEmpty t.stack := by
  induction reached with
  | start started =>
    obtain ⟨inst, f, gas, stored, built, scope, rfl⟩ := newTask_eq_pure started
    exact .root _
  | step reached polled ih =>
    obtain ⟨info, s, ran, handled⟩ := pollOnce_eq_pure polled
    have ranTop := runTop_eq_pure ran
    have sound := reached.sound.ranTop ranTop
    exact (ih.ranTop ranTop).handled sound.integrity (Attempt.Ends.of_pure sound.steps handled)

end Jar.Kernel
