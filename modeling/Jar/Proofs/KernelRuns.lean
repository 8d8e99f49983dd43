import Jar.Lib.Transition
import Jar.Proofs.KernelHandling

/-! Runs of the kernel: what one cycle of a frame leaves, and the tasks that are reachable. -/

namespace Jar.Kernel

open Javm Ssz Attempt
open scoped Word

variable {Runtime : Type}

/-! ## Cycles -/

section

variable (env : Env) (machine : KernelMachine Runtime)

def exitParts (exit : Native DataCap Runtime) : FrameParts DataCap Runtime where
  pc := exit.ctx.pc.setWidth 64
  regs := exit.ctx.exitInfo.regs
  mem := exit.mem
  matState := exit.matState
  roUnits := exit.roUnits
  runtime := some exit.runtime

/-- The frame on top runs to its next exit. -/
inductive RanTop (t : Task Runtime) : ExitInfo → Task Runtime → Prop
  | mk {top : Entry Runtime} {f : KernelFrame Runtime} {runtime : Runtime}
      {exit : Native DataCap Runtime} (last : t.stack.getLast? = some top)
      (held : frameOf t.stack top.target = some f)
      (table : f.runtime = some runtime ∨
        f.runtime = none ∧ buildRuntime env machine t.lane f = pure runtime)
      (ran : exit = machine.enterRing3
        (entryState f.parts runtime (topGas (javm env machine) t).liveGas)) :
      RanTop t exit.ctx.exitInfo { t with
        stack := putFrame t.stack top.target (f.withParts (exitParts exit))
        gas := { topGas (javm env machine) t with liveGas := exit.ctx.gas } }

variable {env machine}

theorem prepareEntry_eq_pure {lane : Nat} {f : KernelFrame Runtime} {gas : Int}
    {entry : Native DataCap Runtime}
    (ran : prepareEntry (javm env machine) lane f gas = pure entry) :
    ∃ runtime, entry = entryState f.parts runtime gas ∧ (f.runtime = some runtime ∨
      f.runtime = none ∧ buildRuntime env machine lane f = pure runtime) := by
  unfold prepareEntry at ran
  simp only [javm] at ran
  split at ran
  next runtime table => exact ⟨runtime, (pure_inj.mp ran).symm, .inl table⟩
  next table =>
    obtain ⟨runtime, built, same⟩ := bind_eq_pure.mp ran
    exact ⟨runtime, (pure_inj.mp same).symm, .inr ⟨table, built⟩⟩

theorem runTop_eq_pure {t s : Task Runtime} {info : ExitInfo}
    (ran : runTop (javm env machine) machine.toMachine t = pure (info, s)) :
    RanTop env machine t info s := by
  unfold runTop at ran
  split at ran
  · exact absurd ran crash_ne_pure
  obtain ⟨f, at_, ran⟩ := bind_eq_pure.mp ran
  obtain ⟨⟨info', f'⟩, ranEntry, ran⟩ := bind_eq_pure.mp ran
  obtain ⟨rfl, rfl⟩ := Prod.mk.inj (pure_inj.mp ran)
  obtain ⟨top, found, held⟩ := frameAt_eq_pure.mp at_
  unfold runOneEntry at ranEntry
  obtain ⟨entry, prepared, ranEntry⟩ := bind_eq_pure.mp ranEntry
  obtain ⟨exit, entered, ranEntry⟩ := bind_eq_pure.mp ranEntry
  obtain ⟨rfl, rfl⟩ := Prod.mk.inj (pure_inj.mp ranEntry)
  obtain ⟨runtime, rfl, table⟩ := prepareEntry_eq_pure prepared
  unfold enterFrame at entered
  split at entered
  · exact absurd entered crash_ne_pure
  rw [setFrameAt_eq found]
  have last : t.stack.getLast? = some top := by rw [List.getLast?_eq_getElem?]; exact found
  have ranTop := RanTop.mk last held table (pure_inj.mp entered).symm
  exact ranTop

end

/-! ## Reachable tasks -/

section

variable (env : Env) (machine : KernelMachine Runtime)

/-- The tasks that the kernel reaches: after any number of steps of a new task. -/
inductive Reachable : Task Runtime → Prop
  | start {lane : Nat} {root : CapHash} {endpointIdx : BitVec 32} {args : Fin 4 → Word64}
      {initialGas : Int} {t : Task Runtime}
      (started : newTask env lane root endpointIdx args initialGas = pure t) : Reachable t
  | step {t t' : Task Runtime} (reached : Reachable t)
      (polled : pollOnce (javm env machine) machine.toMachine t = pure (.resume, t')) :
      Reachable t'

variable {env machine}

theorem pollOnce_eq_pure {t t' : Task Runtime} {flow : Flow}
    (polled : pollOnce (javm env machine) machine.toMachine t = pure (flow, t')) :
    ∃ info s, runTop (javm env machine) machine.toMachine t = pure (info, s) ∧
      dispatchExit (javm env machine) s info = pure (flow, t') := by
  obtain ⟨⟨info, s⟩, ran, handled⟩ := bind_eq_pure.mp polled
  exact ⟨info, s, ran, handled⟩

theorem newTask_eq_pure {lane : Nat} {root : CapHash} {endpointIdx : BitVec 32}
    {args : Fin 4 → Word64} {initialGas : Int} {t : Task Runtime}
    (started : newTask env lane root endpointIdx args initialGas = pure t) :
    ∃ inst f gas, env.store root = some (.inst inst) ∧ FrameBuilt env inst none none f ∧
      (gas = FrameGas.hostBudgeted ∨ DeclaredScope gas) ∧
      t = { lane
            stack := [⟨.instance f, 0, 0, ⟨none, [], gas⟩⟩]
            nextIid := 1
            gas := TaskGasState.new gas.activeKey initialGas } := by
  unfold newTask at started
  obtain ⟨f, built, started⟩ := bind_eq_pure.mp started
  obtain ⟨gas, resolved, started⟩ := bind_eq_pure.mp started
  obtain rfl := pure_inj.mp started
  unfold buildFrameFromPublished at built
  split at built
  · exact absurd built throw_ne_pure
  next inst stored =>
    have frame := Ends.of_pure
      (buildFrame_steps inst none none endpointIdx args : Steps True _ _) built
    refine ⟨inst, f, gas.getD FrameGas.hostBudgeted, stored, frame, ?_, rfl⟩
    have scope := Ends.of_pure (resolveFrameGas_steps frame.resident : Steps True _ _) resolved
    cases gas with
    | none => exact .inl rfl
    | some gas => exact .inr (scope gas rfl)
  · exact absurd built throw_ne_pure

end

/-! ## Gas scopes of entries -/

/-- Every entry is funded by a scope of a kind. -/
def Funded (P : FrameGas → Prop) (stack : List (Entry Runtime)) : Prop :=
  ∀ metadata ∈ stack.map (·.metadata), P metadata.gas

/-- A kind of scopes that declarations and fallbacks do not leave. -/
structure FrameGas.Closed (P : FrameGas → Prop) : Prop where
  declared : ∀ gas, DeclaredScope gas → P gas
  advance : ∀ gas gas', P gas → gas.advance = some gas' → P gas'
  resetToPrimary : ∀ gas, P gas → P gas.resetToPrimary

namespace Funded

variable {P : FrameGas → Prop} {stack : List (Entry Runtime)}

theorem of_mem (funded : Funded P stack) {e : Entry Runtime} (member : e ∈ stack) :
    P e.metadata.gas := funded e.metadata (List.mem_map_of_mem member)

theorem putFrame (funded : Funded P stack) (t : Nat) (frame : KernelFrame Runtime) :
    Funded P (putFrame stack t frame) := by
  unfold Funded
  rw [map_putFrame (·.metadata) fun _ _ => rfl]
  exact funded

theorem append (funded : Funded P stack) {e : Entry Runtime} (new : P e.metadata.gas) :
    Funded P (stack ++ [e]) := by
  intro metadata member
  rw [List.map_append, List.mem_append] at member
  rcases member with old | here
  · exact funded metadata old
  · rw [List.mem_singleton.mp here]
    exact new

theorem sublist {stack' : List (Entry Runtime)} (funded : Funded P stack)
    (part : stack'.Sublist stack) : Funded P stack' :=
  fun metadata member => funded metadata ((part.map _).subset member)

theorem dropped (funded : Funded P stack) (start : Nat) : Funded P (dropped stack start) := by
  have kept : Funded P (released stack start) := by
    unfold Funded
    rw [map_released (·.metadata) fun _ _ => rfl]
    exact funded
  exact kept.sublist (List.take_sublist start _)

theorem withGas (funded : Funded P stack) (i : Nat) {gas : FrameGas} (new : P gas) :
    Funded P (withGas stack i gas) := by
  intro metadata member
  obtain ⟨e, here, rfl⟩ := List.mem_map.mp member
  obtain ⟨j, found⟩ := List.getElem?_of_mem here
  rw [getElem?_withGas] at found
  obtain ⟨e, was, rfl⟩ := Option.map_eq_some_iff.mp found
  split
  · exact new
  · exact funded.of_mem (List.mem_of_getElem? was)

variable {env : Env} {rearmCow : Runtime → List Nat → Runtime}

theorem caught {t : Nat} {payload : Option (InstanceCap Cap)} {stack' : List (Entry Runtime)}
    (funded : Funded P stack) (caught : Caught stack t payload stack') : Funded P stack' := by
  cases caught with
  | @mk c e f caller found held =>
    -- A handler is funded as the frame that it runs.
    have old := funded.of_mem (List.mem_of_getElem? found)
    exact (funded.putFrame c _).append old

theorem returned {value : Word64} {stack' : List (Entry Runtime)} (funded : Funded P stack)
    (returned : Returned rearmCow value stack stack') : Funded P stack' := by
  cases returned with
  | mk own last held origin =>
    exact (funded.sublist (List.sublist_append_left _ _)).putFrame _ _

theorem unpaid {pc : BitVec 32} {stack' : List (Entry Runtime)} (closed : FrameGas.Closed P)
    (funded : Funded P stack) (unpaid : Unpaid env stack pc stack') : Funded P stack' := by
  cases unpaid with
  | @retried top f gas last held next =>
    have old := funded.of_mem (List.mem_of_getLast? last)
    exact (funded.putFrame _ _).withGas _ (closed.advance _ gas old next)
  | @starved top f meter payload stack' last held exhausted primary handle caught =>
    have old := funded.of_mem (List.mem_of_getLast? last)
    exact ((funded.putFrame _ _).withGas _ (closed.resetToPrimary _ old)).caught caught

theorem effect {s s' : Task Runtime} {info : ExitInfo} (closed : FrameGas.Closed P)
    (funded : Funded P s.stack) (effect : Effect env rearmCow s info s') : Funded P s'.stack := by
  cases effect with
  | edited last held asked edit => exact funded.putFrame _ _
  | metered last held asked named => exact funded.putFrame _ _
  | yielded last held asked named other read caught => exact funded.caught caught
  | replied finishes last own returned => exact funded.returned returned
  | unwound finishes last other returned => exact (funded.dropped _).returned returned
  | resumed last other asked held under waiting lower =>
    exact ((funded.sublist (List.dropLast_sublist _)).putFrame _ _).putFrame _ _
  | dropped last other asked => exact funded.dropped _
  | @called top f parent child catchSet gas last held asked calls scope =>
    have old := funded.of_mem (List.mem_of_getLast? last)
    apply (funded.putFrame _ _).append
    rcases scope with rfl | declared
    · exact old
    · exact closed.declared _ declared

theorem handled {s s' : Task Runtime} {info : ExitInfo} (closed : FrameGas.Closed P)
    (funded : Funded P s.stack) (handled : Handled env rearmCow s info (.resume, s')) :
    Funded P s'.stack := by
  cases handled with
  | halted reason handles => exact funded.effect closed handles
  | @paid cost _ pays nonneg handles =>
    have funded' : Funded P (charge s cost).stack := funded
    exact funded'.effect closed handles
  | unpaid why free unpaid => exact funded.unpaid closed unpaid

theorem ranTop {machine : KernelMachine Runtime} {t s : Task Runtime} {info : ExitInfo}
    (funded : Funded P t.stack) (ran : RanTop env machine t info s) : Funded P s.stack := by
  cases ran with
  | mk last held table ran => exact funded.putFrame _ _

end Funded

theorem closed_shortKeys : FrameGas.Closed fun gas => ShortKeys gas.meters where
  declared gas scope := scope.short
  advance gas gas' short next := by
    unfold FrameGas.advance at next
    split at next
    · cases next
    · split at next
      · cases next
        exact short
      · cases next
  resetToPrimary gas short := by
    unfold FrameGas.resetToPrimary
    split <;> exact short

/-! ## A small system -/

def hashOf (b : Byte) : CapHash := ⟨List.replicate 32 b, List.length_replicate⟩

def smallImage (pinned initial : List ImageSlotEntry) : ImageCap where
  code := [0]
  endpoints := [([0], ⟨0, 0, [], 0, fun _ => 0⟩)]
  mappings := []
  pinned
  initial
  yieldReceiverSlot := none
  gasSlots := []
  quotaSlots := []

/-- An instance of the small image, without slots of its own. -/
def smallInstance : InstanceCap Cap where
  imageHashChain := hashOf 1
  imageHash := hashOf 1
  rootCnode := .hash zeroHash
  mem := DataCap.empty
  regs := fun _ => 0
  pc := 0
  gasRemaining := 0

/-- The image is published under one hash, some data under another one, and the image's instance
under all others. -/
def smallEnv (image : ImageCap) : Env where
  store h := some
    (if h = hashOf 1 then .image image
    else if h = hashOf 9 then .data DataCap.empty
    else .inst smallInstance)
  memCache _ := none
  hashes := ⟨fun _ => zeroHash, fun _ => zeroHash, fun _ => zeroHash⟩

/-- Native code that at each PC leaves some registers and asks for an operation. -/
def scriptMachine (script : BitVec 32 → Nat × Regs) : KernelMachine Unit where
  lane _ := 0
  enterRing3 native :=
    { native with
      ctx :=
        { native.ctx with
          exitReason := exitHostCall
          exitArg := (script native.ctx.pc).1
          regs := (script native.ctx.pc).2
          pc := native.ctx.pc + 4 } }
  buildFrameRuntime _ _ _ _ := some ()
  rearmCow _ _ := ()

/-- Native code that asks for one operation, over and over. -/
def smallMachine (op : Nat) (regs : Regs) : KernelMachine Unit := scriptMachine fun _ => (op, regs)

section

variable (env : Env) (machine : KernelMachine Runtime)

def resumedTask (t : Task Runtime) : Option (Task Runtime) :=
  match pollOnce (javm env machine) machine.toMachine t with
  | some (.ok (.resume, t')) => some t'
  | _ => none

/-- The task after some steps of a new one. -/
def taskAfter (root : CapHash) (gas : Int) (n : Nat) : Option (Task Runtime) :=
  match newTask env 0 root 0 (fun _ => 0) gas with
  | some (.ok t) => Transition.runFor (resumedTask env machine) n t
  | _ => none

/-- What shows after some steps shows in a reachable task. -/
theorem exists_reachable {α : Type} (root : CapHash) (gas : Int) (n : Nat)
    (view : Task Runtime → α) {shown : α}
    (ran : (taskAfter env machine root gas n).map view = some shown) :
    ∃ t, Reachable env machine t ∧ view t = shown := by
  obtain ⟨t', after, same⟩ := Option.map_eq_some_iff.mp ran
  unfold taskAfter at after
  split at after
  next t started =>
    refine ⟨t', ?_, same⟩
    refine Transition.runFor_invariant (.start started) (fun u v reached step => ?_) after
    unfold resumedTask at step
    split at step
    next u' polled =>
      cases step
      exact reached.step polled
    · cases step
  · cases after

/-- The two phases of a step that goes on. -/
def stepParts (t : Task Runtime) : Option (ExitInfo × Task Runtime × Task Runtime) :=
  match runTop (javm env machine) machine.toMachine t with
  | some (.ok (info, s)) =>
    match dispatchExit (javm env machine) s info with
    | some (.ok (.resume, t')) => some (info, s, t')
    | _ => none
  | _ => none

theorem of_stepParts {t s t' : Task Runtime} {info : ExitInfo}
    (parts : stepParts env machine t = some (info, s, t')) :
    runTop (javm env machine) machine.toMachine t = pure (info, s) ∧
      dispatchExit (javm env machine) s info = pure (.resume, t') := by
  unfold stepParts at parts
  split at parts
  next ran =>
    split at parts
    next handled =>
      cases parts
      exact ⟨ran, handled⟩
    · cases parts
  · cases parts

/-- What shows in the first step of a new task. -/
theorem exists_firstStep {α : Type} (root : CapHash) (gas : Int)
    (view : ExitInfo → Task Runtime → Task Runtime → α) {shown : α}
    (ran : ((taskAfter env machine root gas 0).bind (stepParts env machine)).map
      (fun step => view step.1 step.2.1 step.2.2) = some shown) :
    ∃ t s t' info, newTask env 0 root 0 (fun _ => 0) gas = pure t ∧
      runTop (javm env machine) machine.toMachine t = pure (info, s) ∧
      dispatchExit (javm env machine) s info = pure (.resume, t') ∧ view info s t' = shown := by
  obtain ⟨⟨info, s, t'⟩, step, same⟩ := Option.map_eq_some_iff.mp ran
  obtain ⟨t, after, parts⟩ := Option.bind_eq_some_iff.mp step
  obtain ⟨ranTop, handled⟩ := of_stepParts env machine parts
  unfold taskAfter at after
  split at after
  next t₀ started =>
    cases after
    exact ⟨t, s, t', info, started, ranTop, handled, same⟩
  · cases after

/-- What shows in a step after some others shows in a step of a reachable task. -/
theorem exists_step {α : Type} (root : CapHash) (gas : Int) (n : Nat)
    (view : ExitInfo → Task Runtime → Task Runtime → α) {shown : α}
    (ran : ((taskAfter env machine root gas n).bind (stepParts env machine)).map
      (fun step => view step.1 step.2.1 step.2.2) = some shown) :
    ∃ t s t' info, Reachable env machine t ∧
      runTop (javm env machine) machine.toMachine t = pure (info, s) ∧
      dispatchExit (javm env machine) s info = pure (.resume, t') ∧ view info s t' = shown := by
  obtain ⟨⟨info, s, t'⟩, step, same⟩ := Option.map_eq_some_iff.mp ran
  obtain ⟨t, after, parts⟩ := Option.bind_eq_some_iff.mp step
  obtain ⟨t, reached, rfl⟩ := exists_reachable env machine root gas n id
    (by rw [after]; rfl : (taskAfter env machine root gas n).map id = some t)
  obtain ⟨ranTop, handled⟩ := of_stepParts env machine parts
  exact ⟨t, s, t', info, reached, ranTop, handled, same⟩

end

end Jar.Kernel
