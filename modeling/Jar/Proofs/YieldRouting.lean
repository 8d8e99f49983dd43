import Jar.Proofs.CallStack
import Jar.Proofs.CatchSets
import Jar.Proofs.SlotMaps

/-! The routing of yields: the nearest owner whose catch-set has the key gets control, and what it
does before it resumes leaves the frame that waits as it is. -/

namespace Jar.Kernel

open Javm Ssz Relation Attempt
open scoped Word

variable {Runtime : Type}

/-! ## Owner edges -/

/-- What an entry keeps from its start on: the invocation that it runs, the owner of that one, and
what the owner catches. -/
structure Edge where
  target : Nat
  owner : Option Nat
  catchSet : List Key
  deriving DecidableEq

def edge (e : Entry Runtime) : Edge := ⟨e.target, e.metadata.owner, e.metadata.ownerCatchSet⟩

def edges (stack : List (Entry Runtime)) : List Edge := stack.map edge

theorem activations_eq_edges (stack : List (Entry Runtime)) :
    activations stack = (edges stack).map fun e => ⟨e.target, e.owner⟩ := by
  rw [edges, List.map_map]
  rfl

theorem edges_append (stack : List (Entry Runtime)) (e : Entry Runtime) :
    edges (stack ++ [e]) = edges stack ++ [edge e] := List.map_append

theorem length_edges (stack : List (Entry Runtime)) : (edges stack).length = stack.length :=
  List.length_map edge

theorem edges_putFrame (stack : List (Entry Runtime)) (t : Nat) (frame : KernelFrame Runtime) :
    edges (putFrame stack t frame) = edges stack := map_putFrame edge fun _ _ => rfl

theorem edges_withGas (stack : List (Entry Runtime)) (i : Nat) (gas : FrameGas) :
    edges (withGas stack i gas) = edges stack := by
  refine List.ext_getElem? fun j => ?_
  rw [edges, edges, List.getElem?_map, List.getElem?_map, getElem?_withGas, Option.map_map]
  congr 1
  funext e
  by_cases here : j = i <;> simp [here, edge]

theorem edges_dropped (stack : List (Entry Runtime)) (start : Nat) :
    edges (dropped stack start) = (edges stack).take start := by
  rw [edges, dropped, List.map_take, map_released edge fun _ _ => rfl]
  rfl

/-- What a step does to the edges: it drops some, or it adds a handler or a call. -/
inductive EdgeStep (env : Env) (stack : List (Entry Runtime)) (info : ExitInfo) :
    List Edge → Prop
  | kept (n : Nat) : EdgeStep env stack info ((edges stack).take n)
  | caught (c : Nat) (owner : Option Nat) (other : c < stack.length) :
      EdgeStep env stack info (edges stack ++ [⟨c, owner, []⟩])
  | called {top : Entry Runtime} {f : KernelFrame Runtime} {catchSet : List Key}
      (last : stack.getLast? = some top) (held : frameOf stack top.target = some f)
      (asked : Asks info opHostCall) (snapshot : snapshotCatchSet env f = pure (some catchSet)) :
      EdgeStep env stack info (edges stack ++ [⟨stack.length, some top.target, catchSet⟩])

section

variable {env : Env} {rearmCow : Runtime → List Nat → Runtime} {info : ExitInfo}

theorem EdgeStep.same (stack : List (Entry Runtime)) : EdgeStep env stack info (edges stack) := by
  have kept : EdgeStep env stack info ((edges stack).take stack.length) := .kept stack.length
  rwa [List.take_of_length_le (length_edges stack).le] at kept

/-- A catch adds a handler, also after bookkeeping that leaves the edges. -/
theorem EdgeStep.of_caught {stack before stack' : List (Entry Runtime)} {t : Nat}
    {payload : Option (InstanceCap Cap)} (same : edges before = edges stack)
    (caught : Caught before t payload stack') : EdgeStep env stack info (edges stack') := by
  cases caught with
  | @mk c e f caller found held =>
    have inside := (List.getElem?_eq_some_iff.mp found).1
    rw [← length_edges, same, length_edges] at inside
    rw [edges_append, edges_putFrame, same]
    exact .caught c _ inside

theorem edges_of_returned {stack stack' : List (Entry Runtime)} {value : Word64}
    (returned : Returned rearmCow value stack stack') :
    edges stack' = (edges stack).take (stack.length - 1) := by
  cases returned with
  | mk own last held origin =>
    rw [edges_putFrame, edges_append, List.length_append, List.length_singleton,
      Nat.add_sub_cancel, List.take_left' (length_edges _)]

theorem EdgeStep.of_effect {s s' : Task Runtime} (effect : Effect env rearmCow s info s') :
    EdgeStep env s.stack info (edges s'.stack) := by
  cases effect with
  | edited last held asked edit => exact edges_putFrame s.stack _ _ ▸ .same _
  | metered last held asked named => exact edges_putFrame s.stack _ _ ▸ .same _
  | yielded last held asked named other read caught => exact .of_caught rfl caught
  | replied finishes last own returned => exact edges_of_returned returned ▸ .kept _
  | unwound finishes last other returned =>
    rw [edges_of_returned returned, edges_dropped, List.take_take]
    exact .kept _
  | resumed last other asked held under waiting lower =>
    rw [edges_putFrame, edges_putFrame, edges, List.dropLast_eq_take, List.map_take]
    exact .kept _
  | dropped last other asked => exact edges_dropped s.stack _ ▸ .kept _
  | called last held asked calls funded snapshot =>
    rw [edges_append, edges_putFrame]
    exact .called last held asked snapshot

theorem EdgeStep.of_handled {s s' : Task Runtime}
    (handled : Handled env rearmCow s info (.resume, s')) :
    EdgeStep env s.stack info (edges s'.stack) := by
  cases handled with
  | halted reason handles => exact .of_effect handles
  | @paid cost _ pays nonneg handles =>
    exact (EdgeStep.of_effect handles : EdgeStep env (charge s cost).stack info _)
  | unpaid why free unpaid =>
    cases unpaid with
    | retried last held next =>
      rw [edges_withGas, edges_putFrame]
      exact .same _
    | starved last held exhausted primary handle caught =>
      exact .of_caught (by rw [edges_withGas, edges_putFrame]) caught

end

/-! ## The nearest owner -/

/-- The nearest owner of an invocation that catches a key: owners whose sets lack it are passed. -/
inductive Catches (stack : List Edge) (key : Key) : Nat → Nat → Prop
  | here {node owner : Nat} {e : Edge} (found : stack[node]? = some e)
      (owned : e.owner = some owner) (caught : key ∈ e.catchSet) : Catches stack key node owner
  | beyond {node owner c : Nat} {e : Edge} (found : stack[node]? = some e)
      (owned : e.owner = some owner) (missed : key ∉ e.catchSet)
      (next : Catches stack key owner c) : Catches stack key node c

def OrderedSets (stack : List (Entry Runtime)) : Prop :=
  ∀ e ∈ edges stack, e.catchSet.Pairwise (· < ·)

section

variable {stack : List (Entry Runtime)} {key : Key}

/-- The walk along owners ends at the nearest one that catches the key. -/
theorem findCatcher_eq (shape : StackShape stack) (ordered : OrderedSets stack)
    {fuel node : Nat} (inside : node < stack.length) (enough : node < fuel) :
    ∃ catcher, findCatcher stack key fuel node = pure catcher ∧
      ∀ c, catcher = some c ↔ Catches (edges stack) key node c := by
  -- Owners lie below, so the walk is shorter than the index that it begins with.
  induction fuel generalizing node with
  | zero => omega
  | succ fuel ih =>
    have found : (edges stack)[node]? = some (edge stack[node]) := by
      rw [edges, List.getElem?_map, List.getElem?_eq_getElem inside, Option.map_some]
    have same : ∀ {e : Edge}, (edges stack)[node]? = some e → e = edge stack[node] :=
      fun found' => Option.some.inj (found'.symm.trans found)
    have search : binarySearch stack[node].metadata.ownerCatchSet key = true ↔
        key ∈ stack[node].metadata.ownerCatchSet :=
      binarySearch_eq_true (ordered _ (List.mem_of_getElem? found))
    unfold findCatcher
    rw [List.getElem?_eq_getElem inside]
    simp only
    split
    next alone =>
      refine ⟨none, rfl, fun c => ⟨nofun, fun caught => ?_⟩⟩
      cases caught with
      | here found' owned => cases (same found' ▸ owned).symm.trans alone
      | beyond found' owned => cases (same found' ▸ owned).symm.trans alone
    next owner owned =>
      have only : ∀ {e : Edge} {o : Nat}, (edges stack)[node]? = some e → e.owner = some o →
          o = owner := fun found' owned' =>
        Option.some.inj ((same found' ▸ owned').symm.trans owned)
      by_cases caught : key ∈ stack[node].metadata.ownerCatchSet
      · rw [if_pos (search.mpr caught)]
        refine ⟨some owner, rfl, fun c => ⟨fun is => ?_, fun way => ?_⟩⟩
        · cases is
          exact .here found owned caught
        · cases way with
          | here found' owned' => rw [only found' owned']
          | beyond found' owned' missed => exact absurd (same found' ▸ caught) missed
      · rw [if_neg (caught ∘ search.mp)]
        have lower := shape.shaped.lt_of_owns
          ⟨_, StackShape.activation (List.getElem?_eq_getElem inside), owned⟩
        obtain ⟨catcher, walked, nearest⟩ := ih (show owner < stack.length by omega) (by omega)
        refine ⟨catcher, walked, fun c => (nearest c).trans ⟨.beyond found owned caught, ?_⟩⟩
        intro way
        cases way with
        | here found' owned' caught' => exact absurd (same found' ▸ caught' :) caught
        | beyond found' owned' _ next => exact only found' owned' ▸ next

theorem Catches.owner {node c : Nat} (caught : Catches (edges stack) key node c) :
    ∃ (i : Nat) (e : Entry Runtime), stack[i]? = some e ∧ e.metadata.owner = some c := by
  induction caught with
  | here found owned =>
    rw [edges, List.getElem?_map] at found
    obtain ⟨e, held, rfl⟩ := Option.map_eq_some_iff.mp found
    exact ⟨_, e, held, owned⟩
  | beyond _ _ _ _ ih => exact ih

/-- The stack on which an owner handles a yield. -/
def handling (stack : List (Entry Runtime)) (c : Nat) (e : Entry Runtime)
    (f : KernelFrame Runtime) (payload : Option (InstanceCap Cap)) : List (Entry Runtime) :=
  putFrame stack c (setReg (give f scratchpadSlot
    (payload.map fun inst => .owned (.new (.inst inst)))) 8 statusYielded) ++
    [{ kind := .reference
       target := c
       instanceId := e.instanceId
       metadata := ⟨e.metadata.owner, [], e.metadata.gas⟩ }]

theorem routeYield_eq (shape : StackShape stack) (ordered : OrderedSets stack) {top : Entry Runtime}
    (found : stack[stack.length - 1]? = some top) (payload : Option (InstanceCap Cap)) :
    (∃ c e f, Catches (edges stack) key top.target c ∧ stack[c]? = some e ∧
      frameOf stack c = some f ∧
      routeYield stack (stack.length - 1) key payload =
        pure (some (handling stack c e f payload))) ∨
    (∀ c, ¬ Catches (edges stack) key top.target c) ∧
      routeYield stack (stack.length - 1) key payload = pure none := by
  have bounded := shape.target_le found
  have pos := shape.length_pos
  obtain ⟨catcher, walked, nearest⟩ : ∃ catcher,
      findCatcher stack key (stack.length + 1) top.target = pure catcher ∧ _ :=
    findCatcher_eq shape ordered (by omega) (by omega)
  unfold routeYield
  rw [found]
  simp only
  rw [walked, pure_bind]
  cases catcher with
  | none => exact .inr ⟨fun c caught => Option.some_ne_none c ((nearest c).mpr caught).symm, rfl⟩
  | some c =>
    have caught := (nearest c).mp rfl
    -- The catcher owns an entry, so it is a live invocation.
    obtain ⟨i, entry, foundEntry, owned⟩ := caught.owner
    obtain ⟨-, f, held⟩ := shape.frameOf_owner foundEntry owned
    obtain ⟨recv, foundRecv, -, -⟩ := shape.target_of_frameOf held
    refine .inl ⟨c, recv, f, caught, foundRecv, held, ?_⟩
    simp only
    rw [foundRecv]
    simp only
    rw [shape.frameAt_own held, pure_bind]
    cases payload with
    | none =>
      simp only [pure_bind]
      rw [shape.setFrameAt_own held]
      rfl
    | some inst =>
      simp only
      rw [frameCnodeSet_eq f (shape.resident held), pure_bind, shape.setFrameAt_own held]
      rfl

end

/-- What comes of a yield of the invocation at a node of a stack: the nearest owner that catches its
key handles it, with the yielded instance in its scratchpad slot, and nothing else changes; or no
owner catches it, and the task ends with its stack as it was. -/
inductive Routed (task : Task Runtime) (stack : List (Entry Runtime)) (node : Nat) (key : Key)
    (payload : InstanceCap Cap) : Flow × Task Runtime → Prop
  | caught {c : Nat} {e : Entry Runtime} {f : KernelFrame Runtime}
      (nearest : Catches (edges stack) key node c) (found : stack[c]? = some e)
      (held : frameOf stack c = some f) :
      Routed task stack node key payload
        (.resume, { task with stack := handling stack c e f (some payload) })
  | unhandled (uncaught : ∀ c, ¬ Catches (edges stack) key node c) (outcome : LoopOutcome) :
      Routed task stack node key payload (.done outcome, task)

/-! ## Explicit yields -/

/-- A frame yields with the sender in the slot that its register 7 names, under the sender's key. -/
structure Sends (env : Env) (f : KernelFrame Runtime) (sender : InstanceCap Cap) (key : Key) :
    Prop where
  free : slotIsPending f (Key.ofReg (f.inst.regs 7)) = false
  held : readInstanceCap env f (Key.ofReg (f.inst.regs 7)) = pure (some sender)
  named : yieldSenderKey env.hashes sender = some key

section

variable {env : Env} {f : KernelFrame Runtime} {sender : InstanceCap Cap} {key : Key}

theorem Sends.yieldKey (sends : Sends env f sender key) : yieldKey env f = pure (some key) := by
  unfold Kernel.yieldKey readInstanceCapGuest
  rw [sends.free, if_neg Bool.false_ne_true, sends.held]
  exact congrArg (fun key => (pure key : Fallible (Option Key))) sends.named

theorem exists_sends (named : yieldKey env f = pure (some key)) : ∃ sender, Sends env f sender key := by
  unfold yieldKey readInstanceCapGuest at named
  split at named
  · exact nomatch pure_inj.mp named
  next free =>
    obtain ⟨read, ran, named⟩ := bind_eq_pure.mp named
    obtain ⟨held, found, same⟩ := bind_eq_pure.mp ran
    obtain rfl := pure_inj.mp same
    cases held with
    | none => exact nomatch pure_inj.mp named
    | some sender => exact ⟨sender, Bool.eq_false_iff.mpr free, found, pure_inj.mp named⟩

theorem dispatchHostYield_eq (sends : Sends env f sender key) (other : key ∉ inlineKeys)
    (gas : TaskGasState Key) : dispatchHostYield env f gas =
      pure (.route key (Key.ofReg (f.inst.regs 7)), f, gas) := by
  unfold dispatchHostYield
  rw [sends.yieldKey, pure_bind]
  simp only [inlineKeys, mintKeys, List.mem_cons, List.not_mem_nil, or_false, not_or] at other
  obtain ⟨meter, mint, merge, gas_, quota⟩ := other
  simp only [meter, mint, merge, gas_, quota, if_false, ite_self]

/-- The handling of a yield that was paid for. -/
theorem hostYield_routed {task : Task Runtime} {info : ExitInfo} {top : Entry Runtime}
    (shape : StackShape task.stack) (ordered : OrderedSets task.stack)
    (last : task.stack.getLast? = some top) (held : frameOf task.stack top.target = some f)
    (sends : Sends env f sender key) (other : key ∉ inlineKeys) :
    ∃ result, hostYield env task info = pure result ∧
      Routed task task.stack top.target key sender result := by
  have found := found_top last
  have running := frameAt_eq_pure.mpr ⟨top, found, held⟩
  unfold hostYield
  rw [running, pure_bind, dispatchHostYield_eq sends other, pure_bind]
  simp only
  rw [setFrameAt_eq found, shape.putFrame_self held]
  change ∃ result, (frameAt task.stack task.topIdx >>= _) = pure result ∧ _
  rw [running, pure_bind, sends.held, pure_bind]
  rcases routeYield_eq shape ordered found (some sender) with
    ⟨c, e, g, nearest, foundCatcher, heldCatcher, ran⟩ | ⟨uncaught, ran⟩
  · exact ⟨_, by rw [KernelTask.topIdx, ran]; rfl, .caught nearest foundCatcher heldCatcher⟩
  · exact ⟨_, by rw [KernelTask.topIdx, ran]; rfl, .unhandled uncaught _⟩

/-- The exit of a frame that yields and pays is the routing of its yield. -/
theorem dispatchExit_yield {machine : KernelMachine Runtime} {s : Task Runtime} {info : ExitInfo}
    {top : Entry Runtime} {cost : Int} (shape : StackShape s.stack) (ordered : OrderedSets s.stack)
    (last : s.stack.getLast? = some top) (held : frameOf s.stack top.target = some f)
    (asked : Asks info opHostYield) (pays : payment env s info = some cost)
    (sends : Sends env f sender key) (other : key ∉ inlineKeys) :
    ∃ result, dispatchExit (javm env machine) s info = pure result ∧
      Routed (charge s cost) s.stack top.target key sender result := by
  obtain ⟨pending, price, enough⟩ := of_payment pays
  obtain ⟨call, op⟩ := asked
  rw [dispatchExit_call call]
  unfold onEcall
  rw [price, pure_bind]
  simp only [enough, if_false, op]
  have charged : StackShape (charge s cost).stack := shape
  exact hostYield_routed charged ordered last held sends other

end

/-! ## Yields of the kernel for a frame without gas -/

/-- The stack with the bookkeeping of an exhausted scope: the frame on top goes back to try again,
and its scope starts over. -/
def starvedStack (stack : List (Entry Runtime)) (top : Entry Runtime) (f : KernelFrame Runtime)
    (pc : BitVec 32) : List (Entry Runtime) :=
  withGas (putFrame stack top.target (atPc f pc)) (stack.length - 1) top.metadata.gas.resetToPrimary

/-- The exit leaves the frame on top without gas: its block was refused, or it cannot pay for a
call. It goes on at the PC once there is gas. -/
def Starves (env : Env) (s : Task Runtime) (info : ExitInfo) (pc : BitVec 32) : Prop :=
  info.exitReason = exitOog ∧ pc = info.pc ∨
    IsCall info ∧ pc = reattemptPc info.pc ∧
      ∃ cost pending, ecallCost env s info.op info = pure (cost, pending) ∧ s.gas.liveGas < cost

section

variable {stack : List (Entry Runtime)} {top : Entry Runtime} {f : KernelFrame Runtime}

theorem edges_starvedStack (pc : BitVec 32) : edges (starvedStack stack top f pc) = edges stack := by
  rw [starvedStack, edges_withGas, edges_putFrame]

theorem shape_starvedStack (shape : StackShape stack) (held : frameOf stack top.target = some f)
    (pc : BitVec 32) : StackShape (starvedStack stack top f pc) := by
  have shape' : StackShape (putFrame stack top.target (atPc f pc)) :=
    shape.putFrame held (shape.resident held :) rfl
  exact shape'.withGas _ _

theorem length_starvedStack (pc : BitVec 32) :
    (starvedStack stack top f pc).length = stack.length := by
  rw [starvedStack, length_withGas, length_putFrame]

variable {env : Env} {meter : Key} {handle : InstanceCap Cap}

/-- A key of the meter table has room in the registers of a handle. -/
theorem exists_gasHandle (hashes : Hashes) (short : meter.length ≤ maxKeyLen) :
    ∃ handle, gasHandle hashes meter = some handle :=
  ⟨_, by rw [gasHandle, unitHandle, keyToRegs, if_pos short]; rfl⟩

/-- A scope without a meter left asks the owners, with a handle of its first meter. -/
theorem tryOogYield_eq (last : stack.getLast? = some top)
    (held : frameOf stack top.target = some f) (metered : top.metadata.gas.activeKey ≠ none)
    (exhausted : top.metadata.gas.advance = none)
    (primary : top.metadata.gas.primaryKey = some meter)
    (handled : gasHandle env.hashes meter = some handle) (pc : BitVec 32) :
    tryOogYield env stack (stack.length - 1) pc =
      routeYield (starvedStack stack top f pc) ((starvedStack stack top f pc).length - 1) ykOog
        (some handle) := by
  have found : stack[stack.length - 1]? = some top := by rw [← List.getLast?_eq_getElem?, last]
  unfold tryOogYield
  rw [found]
  simp only [metered, if_false]
  rw [frameAt_eq_pure.mpr ⟨top, found, held⟩, pure_bind, setFrameAt_eq found, exhausted, primary]
  simp only
  rw [handled, length_starvedStack]
  rfl

/-- The exit of a frame without gas is the routing of the kernel's yield for it. -/
theorem dispatchExit_starved {machine : KernelMachine Runtime} {s : Task Runtime} {info : ExitInfo}
    {pc : BitVec 32} (shape : StackShape s.stack) (ordered : OrderedSets s.stack)
    (last : s.stack.getLast? = some top) (held : frameOf s.stack top.target = some f)
    (starves : Starves env s info pc) (metered : top.metadata.gas.activeKey ≠ none)
    (exhausted : top.metadata.gas.advance = none)
    (primary : top.metadata.gas.primaryKey = some meter)
    (handled : gasHandle env.hashes meter = some handle) :
    ∃ result, dispatchExit (javm env machine) s info = pure result ∧
      Routed s (starvedStack s.stack top f pc) top.target ykOog handle result := by
  have asks := tryOogYield_eq last held metered exhausted primary handled
  obtain ⟨top', last'⟩ := (shape_starvedStack shape held pc).top
  have same : top'.target = top.target := by
    have onTop : (edges (starvedStack s.stack top f pc)).getLast? = (edges s.stack).getLast? := by
      rw [edges_starvedStack]
    rw [edges, edges, List.getLast?_map, List.getLast?_map, last, last'] at onTop
    exact congrArg Edge.target (Option.some.inj onTop)
  have ordered' : OrderedSets (starvedStack s.stack top f pc) := by
    rw [OrderedSets, edges_starvedStack]
    exact ordered
  have routes := @routeYield_eq _ _ ykOog (shape_starvedStack shape held pc) ordered' top'
    (by rw [← List.getLast?_eq_getElem?, last']) (some handle)
  rw [same, ← asks] at routes
  -- Both ways to run out of gas route the same fault.
  have exits : dispatchExit (javm env machine) s info =
      (tryOogYield env s.stack s.topIdx pc >>= fun found => found.elim
        (pure (s.finish (if IsCall info then exitOog else info.exitReason)
          (if IsCall info then 0 else info.exitArg) (info.regs 7) zeroHead, s))
        fun stack => pure (.resume, { s with stack })) := by
    rcases starves with ⟨reason, rfl⟩ | ⟨call, rfl, cost, pending, price, poor⟩
    · have other : ¬ IsCall info := by
        rintro (call | call) <;> (rw [reason] at call; cases call)
      rw [dispatchExit_exit reason]
      simp only [onExit, reason, if_true, other, if_false]
      exact congrArg _ (funext fun found => by cases found <;> rfl)
    · rw [dispatchExit_call call]
      unfold onEcall
      rw [price, pure_bind]
      simp only [poor, if_true, call]
      exact congrArg _ (funext fun found => by cases found <;> rfl)
  rw [exits]
  rcases routes with ⟨c, e, g, nearest, foundCatcher, heldCatcher, ran⟩ | ⟨uncaught, ran⟩
  · exact ⟨_, by rw [KernelTask.topIdx, ran]; rfl, .caught nearest foundCatcher heldCatcher⟩
  · exact ⟨_, by rw [KernelTask.topIdx, ran]; rfl, .unhandled uncaught _⟩

end

/-! ## Frames that wait -/

/-- The entry at an index runs an invocation that yielded: the entry above is a handler. -/
structure Waits (stack : List (Entry Runtime)) (h y : Nat) : Prop where
  below : ∃ e, (edges stack)[h]? = some e ∧ e.target = y
  above : ∃ e, (edges stack)[h + 1]? = some e ∧ e.target ≠ h + 1

section

variable {stack stack' : List (Entry Runtime)} {h y : Nat}

theorem getElem?_edges {i : Nat} : (edges stack)[i]? = stack[i]?.map edge := List.getElem?_map

theorem getElem?_edges_eq {i : Nat} {e : Entry Runtime} (found : stack[i]? = some e) :
    (edges stack)[i]? = some (edge e) := by
  rw [getElem?_edges, found, Option.map_some]

theorem Waits.inside (waits : Waits stack h y) : h + 1 < stack.length := by
  obtain ⟨e, found, -⟩ := waits.above
  rw [← length_edges]
  exact (List.getElem?_eq_some_iff.mp found).1

/-- What yielded is on no path from the handler up. -/
theorem Waits.off (shape : StackShape stack) (waits : Waits stack h y) {i : Nat} (later : h < i) :
    ¬ Activation.Shaped.Path (activations stack) i y := by
  obtain ⟨⟨below, under, rfl⟩, above, upper, caught⟩ := waits
  have found : ∀ {i : Nat} {e : Edge}, (edges stack)[i]? = some e →
      (activations stack)[i]? = some ⟨e.target, e.owner⟩ := fun is => by
    rw [activations_eq_edges, List.getElem?_map, is, Option.map_some]
  exact shape.shaped.not_path_of_catch (found upper) (found under) caught later

theorem Waits.ne_target (shape : StackShape stack) (waits : Waits stack h y) {i : Nat}
    {e : Entry Runtime} (found : stack[i]? = some e) (later : h < i) : e.target ≠ y := fun same =>
  waits.off shape later ⟨_, StackShape.activation found, same ▸ .refl⟩

theorem Waits.ne_top (shape : StackShape stack) (waits : Waits stack h y) {top : Entry Runtime}
    (last : stack.getLast? = some top) : top.target ≠ y := by
  have inside := waits.inside
  exact waits.ne_target shape (Activation.getElem?_of_getLast? last) (by omega)

theorem Waits.lt (shape : StackShape stack) (waits : Waits stack h y) : y ≤ h := by
  obtain ⟨e, found, rfl⟩ := waits.below
  rw [getElem?_edges] at found
  obtain ⟨e, held, rfl⟩ := Option.map_eq_some_iff.mp found
  exact shape.target_le held

theorem frameOf_foldl_forgetOrigin_ne {t : Nat} {origins : List FrameOrigin}
    (other : ∀ o ∈ origins, o.owner ≠ t) :
    frameOf (origins.foldl forgetOrigin stack) t = frameOf stack t := by
  induction origins generalizing stack with
  | nil => rfl
  | cons origin origins ih =>
    rw [List.foldl_cons, ih fun o later => other o (List.mem_cons_of_mem _ later), forgetOrigin]
    split
    · exact frameOf_putFrame_ne (other origin List.mem_cons_self).symm
    · rfl

/-- Everything above a handler's frame was called from it, so dropping it changes no other frame. -/
theorem frameOf_dropped_ne (shape : StackShape stack) {top : Entry Runtime}
    (last : stack.getLast? = some top) {t : Nat} (lower : t < top.target) :
    frameOf (dropped stack (top.target + 1)) t = frameOf stack t := by
  rw [dropped, frameOf_take (by omega)]
  refine frameOf_foldl_forgetOrigin_ne fun o member => ?_
  obtain ⟨-, i, g, later, held, from_⟩ := mem_droppedOrigins.mp member
  obtain ⟨e, found, own, same⟩ := shape.target_of_frameOf held
  have owner := (shape.frames i e g found own).2
  rw [from_, Option.map_some] at owner
  -- The handler's frame is on the path of the dropped entry, at or below its owner.
  have onTop := Activation.getElem?_of_getLast? (getLast?_activations last)
  have within := lt_length_of_frameOf held
  obtain ⟨a, found', way⟩ := shape.shaped.path_of_path
    (show i ≤ (activations stack).length - 1 by rw [length_activations]; omega)
    ⟨_, onTop, .refl⟩ (show top.target ≤ i by omega)
  rw [StackShape.activation found] at found'
  cases found'
  have way : ReflTransGen (Activation.Owns (activations stack)) e.target top.target := way
  rcases ReflTransGen.cases_head way with here | ⟨d, ⟨b, found', owned⟩, way⟩
  · omega
  · rw [same, StackShape.activation found] at found'
    cases found'
    obtain rfl : o.owner = d := Option.some.inj (owner.trans owned)
    rcases reflTransGen_iff_eq_or_transGen.mp way with here | way
    · omega
    · have := shape.shaped.lt_of_transGen way
      omega

theorem frameOf_returned {rearmCow : Runtime → List Nat → Runtime} {value : Word64} {t : Nat}
    (returned : Returned rearmCow value stack stack') (inside : t < stack'.length)
    (other : ∀ e, stack[stack'.length - 1]? = some e → e.target ≠ t) :
    frameOf stack' t = frameOf stack t := by
  cases returned with
  | @mk base e below popped parent k own last held origin =>
    rw [length_putFrame] at inside other
    have under := Activation.getElem?_of_getLast? last
    rw [frameOf_putFrame_ne (other below (Activation.getElem?_append_of_some under _)).symm,
      frameOf_append inside]

theorem Waits.frameOf_caught {top : Activation} {payload : Option (InstanceCap Cap)}
    (shape : StackShape stack) (waits : Waits stack h y)
    (last : (activations stack).getLast? = some top)
    (caught : Caught stack top.target payload stack') : frameOf stack' y = frameOf stack y := by
  cases caught with
  | @mk c e f caller found held =>
    have inside := waits.inside
    have lower := waits.lt shape
    have onTop := Activation.getElem?_of_getLast? last
    rw [length_activations] at onTop
    have other : y ≠ c := fun same => waits.off shape (i := stack.length - 1) (by omega)
      ⟨_, onTop, same ▸ caller.to_reflTransGen⟩
    rw [frameOf_append (by rw [length_putFrame]; omega), frameOf_putFrame_ne other]

end

section

variable {env : Env} {rearmCow : Runtime → List Nat → Runtime} {info : ExitInfo}
  {s s' : Task Runtime} {h y : Nat}

theorem Waits.frameOf_effect (shape : StackShape s.stack) (waits : Waits s.stack h y)
    (effect : Effect env rearmCow s info s') (inside : h + 1 < s'.stack.length) :
    frameOf s'.stack y = frameOf s.stack y := by
  have lower := waits.lt shape
  cases effect with
  | edited last held asked edit => exact frameOf_putFrame_ne (waits.ne_top shape last).symm
  | metered last held asked named => exact frameOf_putFrame_ne (waits.ne_top shape last).symm
  | yielded last held asked named other read caught =>
    exact waits.frameOf_caught shape (getLast?_activations last) caught
  | replied finishes last own returned =>
    exact frameOf_returned returned (by omega) fun e found =>
      waits.ne_target shape found (by omega)
  | @unwound top stack' finishes last other returned =>
    -- The handler's own frame is popped with everything above it.
    have onTop := Activation.getElem?_of_getLast? last
    have bounded := shape.target_le onTop
    have within := waits.inside
    have drop : (dropped s.stack (top.target + 1)).length = top.target + 1 :=
      length_dropped (by omega)
    have length := congrArg List.length (edges_of_returned returned)
    rw [length_edges, List.length_take, length_edges, drop] at length
    have inside : h + 1 < stack'.length := inside
    refine (frameOf_returned returned (by omega) fun e found => ?_).trans
      (frameOf_dropped_ne shape last (by omega))
    have same := getElem?_edges_eq found
    rw [edges_dropped, List.getElem?_take_of_lt (by omega), getElem?_edges] at same
    obtain ⟨e', found', same⟩ := Option.map_eq_some_iff.mp same
    have target : e'.target = e.target := congrArg Edge.target same
    exact target ▸ waits.ne_target shape found' (by omega)
  | @resumed top below handler yielder last other asked held under waiting lower' =>
    rw [length_putFrame, length_putFrame, List.length_dropLast] at inside
    have found := Activation.getElem?_of_getLast? under
    rw [List.length_dropLast, List.dropLast_eq_take, List.getElem?_take_of_lt (by omega)] at found
    rw [frameOf_putFrame_ne (waits.ne_target shape found (by omega)).symm,
      frameOf_putFrame_ne (waits.ne_top shape last).symm, List.dropLast_eq_take,
      frameOf_take (by omega)]
  | @dropped top last other asked =>
    have onTop := Activation.getElem?_of_getLast? last
    have bounded := shape.target_le onTop
    have within := waits.inside
    rw [length_dropped (by omega)] at inside
    exact frameOf_dropped_ne shape last (by omega)
  | called last held asked calls funded snapshot =>
    have within := waits.inside
    rw [frameOf_append (by rw [length_putFrame]; omega),
      frameOf_putFrame_ne (waits.ne_top shape last).symm]

theorem Waits.congr {stack stack' : List (Entry Runtime)} (waits : Waits stack h y)
    (same : ∀ i ≤ h + 1, (edges stack')[i]? = (edges stack)[i]?) : Waits stack' h y := by
  obtain ⟨below, above⟩ := waits
  rw [← same h (by omega)] at below
  rw [← same (h + 1) le_rfl] at above
  exact ⟨below, above⟩

theorem Waits.frameOf_handled (shape : StackShape s.stack) (waits : Waits s.stack h y)
    (handled : Handled env rearmCow s info (.resume, s')) (inside : h + 1 < s'.stack.length) :
    frameOf s'.stack y = frameOf s.stack y := by
  cases handled with
  | halted reason handles => exact waits.frameOf_effect shape handles inside
  | @paid cost _ pays nonneg handles =>
    exact Waits.frameOf_effect (s := charge s cost) shape waits handles inside
  | @unpaid pc stack' why free unpaid =>
    cases unpaid with
    | retried last held next =>
      rw [frameOf_withGas, frameOf_putFrame_ne (waits.ne_top shape last).symm]
    | @starved top f meter payload stack' last held exhausted primary handle caught =>
      -- The bookkeeping before the fault changes the frame on top and its scope.
      have waits' : Waits (starvedStack s.stack top f pc) h y :=
        waits.congr fun i _ => congrArg (·[i]?) (edges_starvedStack pc)
      have last' := getLast?_activations last
      rw [← activations_putFrame, ← activations_withGas] at last'
      rw [waits'.frameOf_caught (shape_starvedStack shape held pc) last' caught, starvedStack,
        frameOf_withGas,
        frameOf_putFrame_ne (waits.ne_top shape last).symm]

/-- Only a resume leaves what yielded on top, with a response and the status of success. -/
theorem Waits.resumed (shape : StackShape s.stack) (waits : Waits s.stack h y)
    (effect : Effect env rearmCow s info s') (onTop : s'.stack.length = h + 1)
    {f : KernelFrame Runtime} (held : frameOf s.stack y = some f) :
    ∃ response, frameOf s'.stack y =
      some (setReg (give f scratchpadSlot response) 8 statusOk) := by
  have inside := waits.inside
  obtain ⟨handler, upper, caught⟩ := waits.above
  -- The entry above is no invocation of its own.
  have noOwn : ∀ {e : Entry Runtime}, s.stack[h + 1]? = some e → e.target ≠ h + 1 := fun found => by
    rw [getElem?_edges_eq found] at upper
    cases upper
    exact caught
  have own : ∀ {top : Entry Runtime}, s.stack.getLast? = some top →
      ∃ e, s.stack[top.target]? = some e ∧ e.target = top.target := fun last => by
    obtain ⟨f, held⟩ := shape.frameOf_target (Activation.getElem?_of_getLast? last)
    obtain ⟨e, found, -, same⟩ := shape.target_of_frameOf held
    exact ⟨e, found, same⟩
  cases effect with
  | edited last held asked edit => rw [length_putFrame] at onTop; omega
  | metered last held asked named => rw [length_putFrame] at onTop; omega
  | yielded last held asked named other read caught =>
    cases caught
    rw [List.length_append, length_putFrame] at onTop
    omega
  | @replied top stack' finishes last isOwn returned =>
    have length := congrArg List.length (edges_of_returned returned)
    rw [length_edges, List.length_take, length_edges, onTop] at length
    have found := Activation.getElem?_of_getLast? last
    rw [KernelTask.topIdx] at isOwn
    rw [show s.stack.length - 1 = h + 1 by omega] at found isOwn
    exact absurd isOwn (noOwn found)
  | @unwound top stack' finishes last other returned =>
    have bounded := shape.target_le (Activation.getElem?_of_getLast? last)
    have length := congrArg List.length (edges_of_returned returned)
    rw [length_edges, List.length_take, length_edges, onTop, length_dropped (by omega)] at length
    obtain ⟨e, found, same⟩ := own last
    rw [show top.target = h + 1 by omega] at found same
    exact absurd same (noOwn found)
  | @dropped top last other asked =>
    have bounded := shape.target_le (Activation.getElem?_of_getLast? last)
    rw [length_dropped (by omega)] at onTop
    obtain ⟨e, found, same⟩ := own last
    obtain ⟨below, under, is⟩ := waits.below
    rw [show top.target = h by omega] at found same
    rw [getElem?_edges_eq found] at under
    cases under
    exact absurd ((show top.target = h by omega).trans (same.symm.trans is))
      (waits.ne_top shape last)
  | called last held asked calls funded snapshot =>
    rw [List.length_append, length_putFrame] at onTop
    omega
  | @resumed top below handler yielder last other asked heldHandler under waiting lower =>
    rw [length_putFrame, length_putFrame, List.length_dropLast] at onTop
    have found := Activation.getElem?_of_getLast? under
    rw [List.length_dropLast, List.dropLast_eq_take, List.getElem?_take_of_lt (by omega),
      show s.stack.length - 1 - 1 = h by omega] at found
    obtain ⟨e, under', is⟩ := waits.below
    rw [getElem?_edges_eq found] at under'
    cases under'
    obtain rfl : below.target = y := is
    obtain rfl := Option.some.inj (waiting.symm.trans held)
    refine ⟨_, frameOf_putFrame_self (?_ : _ = some yielder)⟩
    rw [frameOf_putFrame_ne (Nat.ne_of_gt lower), List.dropLast_eq_take, frameOf_take
      (by have := waits.lt shape; omega), held]

end

/-! ## Runs -/

theorem sorted_snapshotCatchSet {env : Env} {f : KernelFrame Runtime} {set : List Key}
    (snapshot : snapshotCatchSet env f = pure (some set)) : set.Pairwise (· < ·) := by
  unfold snapshotCatchSet at snapshot
  split at snapshot
  · split at snapshot
    · cases snapshot
      exact .nil
    · obtain ⟨read, -, snapshot⟩ := bind_eq_pure.mp snapshot
      split at snapshot
      · cases snapshot
      · split at snapshot
        · exact absurd snapshot crash_ne_pure
        · cases snapshot
          exact (sorted_normalizeKeys _).pairwise
      · cases snapshot
        exact .nil
  · cases snapshot
    exact .nil

section

variable (env : Env) (machine : KernelMachine Runtime)

/-- A run that keeps the entries up to an index. -/
inductive Stays (n : Nat) (t : Task Runtime) : Task Runtime → Prop
  | refl (inside : n < t.stack.length) : Stays n t t
  | step {u u' : Task Runtime} (before : Stays n t u)
      (polled : pollOnce (javm env machine) machine.toMachine u = pure (.resume, u'))
      (inside : n < u'.stack.length) : Stays n t u'

/-- An entry was pushed by a call of its owner, with what the owner caught at that call. -/
def Stamped (t : Task Runtime) (i : Nat) (e : Edge) : Prop :=
  ∃ u info s u' top f, Reachable env machine u ∧
    runTop (javm env machine) machine.toMachine u = pure (info, s) ∧ Asks info opHostCall ∧
    dispatchExit (javm env machine) s info = pure (.resume, u') ∧ s.stack.length = i ∧
    s.stack.getLast? = some top ∧ e.owner = some top.target ∧
    frameOf s.stack top.target = some f ∧ snapshotCatchSet env f = pure (some e.catchSet) ∧
    Stays env machine i u' t

variable {env machine} {t t' : Task Runtime}

/-- The two phases of a step: the frame on top runs, and its exit is handled. -/
theorem Reachable.parts (reached : Reachable env machine t)
    (polled : pollOnce (javm env machine) machine.toMachine t = pure (.resume, t')) :
    ∃ info s, runTop (javm env machine) machine.toMachine t = pure (info, s) ∧
      dispatchExit (javm env machine) s info = pure (.resume, t') ∧ RanTop env machine t info s ∧
      StackShape s.stack ∧ edges s.stack = edges t.stack ∧
      Handled env machine.rearmCow s info (.resume, t') := by
  obtain ⟨info, s, ran, handled⟩ := pollOnce_eq_pure polled
  have ranTop := runTop_eq_pure ran
  have sound := reached.sound.ranTop ranTop
  refine ⟨info, s, ran, handled, ranTop, sound.integrity.toStackShape, ?_,
    Ends.of_pure sound.steps handled⟩
  cases ranTop
  exact edges_putFrame ..

theorem Reachable.orderedSets (reached : Reachable env machine t) : OrderedSets t.stack := by
  induction reached with
  | start started =>
    obtain ⟨inst, f, gas, -, -, -, rfl⟩ := newTask_eq_pure started
    intro e member
    rw [List.mem_singleton.mp member]
    exact .nil
  | step reached polled ordered =>
    obtain ⟨info, s, -, -, -, -, same, handled⟩ := reached.parts polled
    rw [OrderedSets, ← same] at ordered
    have step := EdgeStep.of_handled handled
    unfold OrderedSets
    generalize edges _ = es at step
    intro e member
    cases step with
    | kept n => exact ordered e (List.mem_of_mem_take member)
    | caught c owner other =>
      rcases List.mem_append.mp member with old | new
      · exact ordered e old
      · rw [List.mem_singleton.mp new]
        exact .nil
    | called last held asked snapshot =>
      rcases List.mem_append.mp member with old | new
      · exact ordered e old
      · rw [List.mem_singleton.mp new]
        exact sorted_snapshotCatchSet snapshot

theorem Reachable.stamped (reached : Reachable env machine t) {i : Nat} {e : Edge}
    (found : (edges t.stack)[i]? = some e) (own : e.target = i) (owned : e.owner ≠ none) :
    Stamped env machine t i e := by
  induction reached with
  | start started =>
    obtain ⟨inst, f, gas, -, -, -, rfl⟩ := newTask_eq_pure started
    cases i with
    | zero => cases found; exact absurd rfl owned
    | succ i => cases found
  | @step t t' reached polled ih =>
    obtain ⟨info, s, ran, handled, -, -, same, effect⟩ := reached.parts polled
    have inside := (List.getElem?_eq_some_iff.mp found).1
    rw [length_edges] at inside
    -- What was there before keeps its call.
    have old : (edges t.stack)[i]? = some e → Stamped env machine t' i e := fun before => by
      obtain ⟨u, info, s, u', top, f, rest⟩ := ih before
      obtain ⟨reachedCall, ran, asked, handled, length, last, owner, held, snapshot, stays⟩ := rest
      exact ⟨u, info, s, u', top, f, reachedCall, ran, asked, handled, length, last, owner, held,
        snapshot, .step stays polled inside⟩
    have step := EdgeStep.of_handled effect
    rw [← same] at old
    generalize edges t'.stack = es at step found
    cases step with
    | kept n =>
      rw [List.getElem?_take] at found
      exact old (Option.ite_none_right_eq_some.mp found).2
    | caught c owner other =>
      rcases getElem?_concat_cases found with ⟨rfl, rfl⟩ | before
      · rw [length_edges] at own
        simp only at own
        omega
      · exact old before
    | @called top f catchSet last held asked snapshot =>
      rcases getElem?_concat_cases found with ⟨rfl, rfl⟩ | before
      · rw [length_edges] at inside ⊢
        exact ⟨t, info, s, t', top, f, reached, ran, asked, handled, rfl, last, rfl, held, snapshot,
          .refl inside⟩
      · exact old before

/-- A step that keeps the handler keeps the frame that waits for it. -/
theorem Waits.step {h y : Nat} (reached : Reachable env machine t) (waits : Waits t.stack h y)
    (polled : pollOnce (javm env machine) machine.toMachine t = pure (.resume, t'))
    (inside : h + 1 < t'.stack.length) :
    Waits t'.stack h y ∧ frameOf t'.stack y = frameOf t.stack y := by
  obtain ⟨info, s, -, -, ran, shape, same, handled⟩ := reached.parts polled
  have native : frameOf s.stack y = frameOf t.stack y := by
    cases ran with
    | mk last held table ran =>
      exact frameOf_putFrame_ne (waits.ne_top reached.sound.integrity.toStackShape last).symm
  have waits' : Waits s.stack h y := waits.congr fun i _ => congrArg (·[i]?) same
  refine ⟨waits'.congr fun i low => ?_, (waits'.frameOf_handled shape handled inside).trans native⟩
  -- The edges up to the handler are in both stacks.
  have before := waits'.inside
  have step := EdgeStep.of_handled handled
  have long : i < (edges t'.stack).length := by rw [length_edges]; omega
  generalize edges t'.stack = es at step long
  cases step with
  | kept n =>
    rw [List.length_take] at long
    exact List.getElem?_take_of_lt (by omega)
  | caught => exact List.getElem?_append_left (by rw [length_edges]; omega)
  | called => exact List.getElem?_append_left (by rw [length_edges]; omega)

theorem Stays.frame {h y : Nat} {u : Task Runtime} (reached : Reachable env machine t)
    (waits : Waits t.stack h y) (stays : Stays env machine (h + 1) t u) :
    Reachable env machine u ∧ Waits u.stack h y ∧ frameOf u.stack y = frameOf t.stack y := by
  induction stays with
  | refl inside => exact ⟨reached, waits, rfl⟩
  | step before polled inside ih =>
    obtain ⟨reached, waits, same⟩ := ih
    obtain ⟨waits', kept⟩ := waits.step reached polled inside
    exact ⟨reached.step polled, waits', kept.trans same⟩

/-- Every explicit yield, and every yield of the kernel for a frame without gas, goes to the nearest
owner whose catch-set has its key. The set on an owner edge is what the owner caught at the call that
made the edge. A frame that waits for its handler is resumed as it was, apart from the response in
its scratchpad slot and its status. -/
theorem yield_routing (reached : Reachable env machine t) :
    (∀ info s top f, runTop (javm env machine) machine.toMachine t = pure (info, s) →
      s.stack.getLast? = some top → frameOf s.stack top.target = some f →
      (∀ key sender cost, Asks info opHostYield → payment env s info = some cost →
        Sends env f sender key → key ∉ inlineKeys →
        ∃ result, dispatchExit (javm env machine) s info = pure result ∧
          Routed (charge s cost) s.stack top.target key sender result) ∧
      ∀ pc meter, Starves env s info pc → top.metadata.gas.activeKey ≠ none →
        top.metadata.gas.advance = none → top.metadata.gas.primaryKey = some meter →
        ∃ handle result, gasHandle env.hashes meter = some handle ∧
          dispatchExit (javm env machine) s info = pure result ∧
          Routed s (starvedStack s.stack top f pc) top.target ykOog handle result) ∧
    (∀ i e o, t.stack[i]? = some e → e.target = i → e.metadata.owner = some o →
      Stamped env machine t i (edge e)) ∧
    ∀ h below above f u u', t.stack[h]? = some below → t.stack[h + 1]? = some above →
      above.kind = .reference → frameOf t.stack below.target = some f →
      Stays env machine (h + 1) t u →
      pollOnce (javm env machine) machine.toMachine u = pure (.resume, u') →
      u'.stack.length = h + 1 →
      ∃ response, frameOf u'.stack below.target =
        some (setReg (give f scratchpadSlot response) 8 statusOk) := by
  refine ⟨fun info s top f ran last held => ?_, fun i e o found own owned => ?_,
    fun h below above f u u' under upper kind held stays polled onTop => ?_⟩
  · have ranTop := runTop_eq_pure ran
    have sound := reached.sound.ranTop ranTop
    have shape := sound.integrity.toStackShape
    have ordered : OrderedSets s.stack := by
      have before := reached.orderedSets
      cases ranTop
      rw [OrderedSets, edges_putFrame]
      exact before
    refine ⟨fun key sender cost asked pays sends other => ?_,
      fun pc meter starves metered exhausted primary => ?_⟩
    · exact dispatchExit_yield shape ordered last held asked pays sends other
    · obtain ⟨handle, handled⟩ := exists_gasHandle env.hashes
        (sound.short.of_mem (List.mem_of_getLast? last) meter (List.mem_of_head? primary))
      obtain ⟨result, exits, routed⟩ :=
        dispatchExit_starved shape ordered last held starves metered exhausted primary handled
      exact ⟨handle, result, handled, exits, routed⟩
  · exact reached.stamped (getElem?_edges_eq found) own (by rw [edge, owned]; nofun)
  · have shape := reached.sound.integrity.toStackShape
    have handler : above.target ≠ h + 1 := fun same => by
      have own := (shape.own _ _ upper).mpr same
      rw [ownFrame, kind] at own
      cases own
    have waits : Waits t.stack h below.target :=
      ⟨⟨_, getElem?_edges_eq under, rfl⟩, _, getElem?_edges_eq upper, handler⟩
    obtain ⟨reached, waits, same⟩ := stays.frame reached waits
    obtain ⟨info, s, -, -, ran, shape, edges, handled⟩ := reached.parts polled
    have waits' : Waits s.stack h below.target := waits.congr fun i _ => congrArg (·[i]?) edges
    have held' : frameOf s.stack below.target = some f := by
      cases ran with
      | mk last _ _ _ =>
        rw [frameOf_putFrame_ne (waits.ne_top reached.sound.integrity.toStackShape last).symm, same,
          held]
    have inside := waits'.inside
    cases handled with
    | halted reason handles => exact waits'.resumed shape handles onTop held'
    | @paid cost _ pays nonneg handles =>
      exact Waits.resumed (s := charge s cost) shape waits' handles onTop held'
    | unpaid why free unpaid =>
      -- A retry leaves the length, and a routed fault adds a handler.
      cases unpaid with
      | retried =>
        rw [length_withGas, length_putFrame] at onTop
        omega
      | starved last held exhausted primary handle caught =>
        cases caught
        rw [List.length_append, length_putFrame, length_withGas, length_putFrame] at onTop
        omega

end

/-! ## A yield that is caught and resumed -/

/-- An image with two endpoints that catches what the receiver in slot 6 does, and can send with
slot 4. -/
def catchingImage : ImageCap :=
  { smallImage [] [⟨[4], hashOf 4⟩, ⟨[5], hashOf 2⟩, ⟨[6], hashOf 6⟩] with
    endpoints := [([0], ⟨0, 0, [], 0, fun _ => 0⟩), ([1], ⟨100, 0, [], 0, fun _ => 0⟩)]
    yieldReceiverSlot := some [6] }

/-- The store also has a sender and a receiver of one key. -/
def catchingEnv : Env :=
  { smallEnv catchingImage with
    store := fun h =>
      if h = hashOf 4 then (yieldSender labelHashes [42]).map .inst
      else if h = hashOf 6 then some (.inst (yieldReceiver labelHashes [[42]]))
      else (smallEnv catchingImage).store h
    hashes := labelHashes }

/-- The caller calls the second endpoint of the instance in slot 5 and resumes what it catches; the
callee yields. -/
def catchingMachine : KernelMachine Unit :=
  scriptMachine fun pc =>
    if pc = 0 then (opHostCall, fun i => if i = 7 then 5 else if i = 8 then 1 else 0)
    else if pc = 100 then (opHostYield, fun i => if i = 7 then 4 else 0)
    else (opCallResume, fun _ => 0)

/-- What the step of a yield shows. -/
structure YieldView where
  op : Nat
  price : Option Int
  key : Option Key
  height : Nat
  /-- The edge of the entry that yields. -/
  yielder : Option Edge
  /-- The target of the same entry after the step, and whether the entry above it is a handler. -/
  caught : Option (Nat × Bool)
  /-- The height of the stack after the step that follows. -/
  resumed : Option Nat
  deriving DecidableEq

def yieldView (info : ExitInfo) (s u : Task Unit) : YieldView where
  op := info.op
  price := payment catchingEnv s info
  key := (s.stack.getLast?.bind fun top => frameOf s.stack top.target).bind fun f =>
    match yieldKey catchingEnv f with
    | some (.ok key) => key
    | _ => none
  height := s.stack.length
  yielder := s.stack.getLast?.map edge
  caught := u.stack[1]?.bind fun below => u.stack[2]?.map fun above =>
    (below.target, (ownFrame above).isNone)
  resumed := (stepParts catchingEnv catchingMachine u).map (·.2.2.stack.length)

/-- The second step is a yield of the callee. -/
theorem yieldView_catching : ((taskAfter catchingEnv catchingMachine zeroHash 100000 1).bind
    (stepParts catchingEnv catchingMachine)).map (fun step => yieldView step.1 step.2.1 step.2.2) =
      some ⟨opHostYield, some 100, some [42], 2, some ⟨1, some 0, [[42]]⟩, some (1, true),
        some 2⟩ := by
  decide +kernel

/-- The callee yields to its caller, which resumes it. -/
theorem yield_routing_resumed : ∃ (t s u u' : Task Unit) (sender : InstanceCap Cap)
    (f : KernelFrame Unit) (response : Option (ResidentTarget Unit)),
    Reachable catchingEnv catchingMachine t ∧
    Stamped catchingEnv catchingMachine t 1 ⟨1, some 0, [[42]]⟩ ∧
    Routed (charge s 100) s.stack 1 [42] sender (.resume, u) ∧
    pollOnce (javm catchingEnv catchingMachine) catchingMachine.toMachine u = pure (.resume, u') ∧
    frameOf u.stack 1 = some f ∧
    frameOf u'.stack 1 = some (setReg (give f scratchpadSlot response) 8 statusOk) := by
  obtain ⟨t, s, u, info, reached, ran, handled, shown⟩ := exists_step catchingEnv catchingMachine
    zeroHash 100000 1 yieldView yieldView_catching
  obtain ⟨op, price, key, height, yielder, caught, resumed⟩ := YieldView.mk.inj shown
  have polled : pollOnce (javm catchingEnv catchingMachine) catchingMachine.toMachine t =
      pure (.resume, u) := by
    rw [pollOnce, ran]
    exact handled
  -- The call of the callee made the edge that the yield goes along.
  obtain ⟨top, last, isEdge⟩ := Option.map_eq_some_iff.mp yielder
  have onTop := Activation.getElem?_of_getLast? last
  rw [height] at onTop
  have sameEdges : edges s.stack = edges t.stack := by
    cases runTop_eq_pure ran
    exact edges_putFrame ..
  have edgeAt := getElem?_edges_eq onTop
  rw [sameEdges, getElem?_edges, isEdge] at edgeAt
  obtain ⟨e, found, sameEdge⟩ := Option.map_eq_some_iff.mp edgeAt
  have stamped := (yield_routing reached).2.1 1 e 0 found (congrArg Edge.target sameEdge)
    (congrArg Edge.owner sameEdge)
  rw [sameEdge] at stamped
  -- The yield is routed to the caller.
  rw [last, Option.bind_some] at key
  obtain ⟨f₀, held, named⟩ := Option.bind_eq_some_iff.mp key
  have named : yieldKey catchingEnv f₀ = pure (some [42]) := by
    split at named
    next read =>
      rw [read, named]
      rfl
    · cases named
  obtain ⟨sender, sends⟩ := exists_sends named
  obtain ⟨result, exits, routed⟩ := ((yield_routing reached).1 info s top f₀ ran last held).1 [42]
    sender 100 ⟨isCall_of_payment price, op⟩ price sends (by decide)
  obtain rfl := pure_inj.mp (handled.symm.trans exits)
  rw [show top.target = 1 from congrArg Edge.target isEdge] at routed
  -- The caller resumes the callee in the next step.
  have reached' := reached.step polled
  obtain ⟨⟨info', s', u'⟩, parts, two⟩ := Option.map_eq_some_iff.mp resumed
  obtain ⟨ran', handled'⟩ := of_stepParts _ _ parts
  have polled' : pollOnce (javm catchingEnv catchingMachine) catchingMachine.toMachine u =
      pure (.resume, u') := by
    rw [pollOnce, ran']
    exact handled'
  obtain ⟨below, under, caught⟩ := Option.bind_eq_some_iff.mp caught
  obtain ⟨above, upper, shown⟩ := Option.map_eq_some_iff.mp caught
  obtain ⟨target, isHandler⟩ := Prod.mk.inj shown
  obtain ⟨f, waiting⟩ := reached'.sound.integrity.toStackShape.frameOf_target under
  have kind : above.kind = .reference := by
    cases is : above.kind with
    | reference => rfl
    | «instance» g =>
      rw [ownFrame, is] at isHandler
      cases isHandler
  have inside := (List.getElem?_eq_some_iff.mp upper).1
  obtain ⟨response, after⟩ := (yield_routing reached').2.2 1 below above f u u' under upper kind
    waiting (.refl inside) polled' two
  rw [target] at waiting after
  exact ⟨t, s, u, u', sender, f, response, reached, stamped, routed, polled', waiting, after⟩

end Jar.Kernel
