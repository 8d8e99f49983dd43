import Jar.Proofs.CallStack
import Jar.Proofs.SlotMaps

/-! How single frames change when an exit is handled, and the rule for properties of all frames. -/

namespace Jar.Kernel

open Javm Ssz Relation Attempt
open scoped Word

variable {Runtime : Type}

/-! ## Changes of one frame -/

section

variable (env : Env) (calls : KernelFrame Runtime → Key → Prop)

/-- One change of a frame; `calls` says which slots it may call. -/
inductive Touch : KernelFrame Runtime → KernelFrame Runtime → Prop
  /-- Registers, PC, memory or page table change. -/
  | ran {f : KernelFrame Runtime} (p : FrameParts DataCap Runtime) : Touch f (f.withParts p)
  /-- The guest writes slots that it may write. -/
  | edited {f f' : KernelFrame Runtime} (edit : Edit f f') : Touch f f'
  /-- Something may arrive in the scratchpad. -/
  | received {f : KernelFrame Runtime} (target : Option (ResidentTarget Runtime)) :
      Touch f (give f scratchpadSlot target)
  /-- The scratchpad moves away. -/
  | sent {f : KernelFrame Runtime} : Touch f (putSlot f scratchpadSlot none)
  /-- The instance of a slot starts to run. -/
  | called {f : KernelFrame Runtime} {slot : Key} (asked : calls f slot)
      (free : slotIsPending f slot = false) : Touch f (withPending (putSlot f slot none) slot)
  /-- The instance of a slot comes back. -/
  | returned {f : KernelFrame Runtime} {slot : Key} (cap : CachedCap Runtime)
      (waits : slotIsPending f slot = true) :
      Touch f (putSlot (withoutPending f slot) slot (some (.owned cap)))
  /-- Instances that ran are dropped. -/
  | forgot {f : KernelFrame Runtime} {pending : SortedMap Key Unit}
      (fewer : ∀ k, (pending.lookup k).isSome → slotIsPending f k = true) :
      Touch f { f with pendingOrigins := pending }

/-- A new frame with the slots that it inherits. -/
inductive Started : KernelFrame Runtime → Prop
  | mk {inst : InstanceCap Cap} {cached : Option (ResidentCNode Runtime)} {origin : FrameOrigin}
      {child : KernelFrame Runtime} (slots : ResidentCNode Runtime)
      (built : FrameBuilt env inst cached (some origin) child) :
      Started (withRootCnode child (inheritSlots slots child.slots))

/-- Every frame of a stack comes from one of another stack, or is new. -/
def Touches (stack stack' : List (Entry Runtime)) : Prop :=
  ∀ t f', frameOf stack' t = some f' →
    ∃ f, (frameOf stack t = some f ∨ Started env f) ∧ ReflTransGen (Touch calls) f f'

end

section

variable {env : Env} {calls : KernelFrame Runtime → Key → Prop}
  {stack stack' stack'' : List (Entry Runtime)} {t : Nat} {f f' : KernelFrame Runtime}

/-- A property that no change breaks and every new frame has holds for all frames. -/
theorem Touches.forall_frames {P : KernelFrame Runtime → Prop}
    (touches : Touches env calls stack stack') (step : ∀ f f', Touch calls f f' → P f → P f')
    (new : ∀ f, Started env f → P f) (all : ∀ t f, frameOf stack t = some f → P f) :
    ∀ t f, frameOf stack' t = some f → P f := by
  intro t f' held
  obtain ⟨f, from_, changes⟩ := touches t f' held
  have start : P f := from_.elim (all t f) (new f)
  clear held
  -- The changes are made one after the other.
  induction changes with
  | refl => exact start
  | tail _ change ih => exact step _ _ change ih

namespace Touches

theorem of_frameOf (kept : ∀ t f, frameOf stack' t = some f → frameOf stack t = some f) :
    Touches env calls stack stack' :=
  fun t f held => ⟨f, .inl (kept t f held), .refl⟩

theorem trans (first : Touches env calls stack stack') (second : Touches env calls stack' stack'') :
    Touches env calls stack stack'' := by
  intro t f'' held
  obtain ⟨f', from', changes'⟩ := second t f'' held
  rcases from' with held' | started
  · obtain ⟨f, from_, changes⟩ := first t f' held'
    exact ⟨f, from_, changes.trans changes'⟩
  · exact ⟨f', .inr started, changes'⟩

theorem putFrame (held : frameOf stack t = some f) (changes : ReflTransGen (Touch calls) f f') :
    Touches env calls stack (putFrame stack t f') := by
  intro i g heldNew
  by_cases here : i = t
  · subst here
    rw [frameOf_putFrame_self held] at heldNew
    cases heldNew
    exact ⟨f, .inl held, changes⟩
  · rw [frameOf_putFrame_ne here] at heldNew
    exact ⟨g, .inl heldNew, .refl⟩

theorem withGas (i : Nat) (gas : FrameGas) : Touches env calls stack (withGas stack i gas) :=
  of_frameOf fun t f held => by rwa [frameOf_withGas] at held

theorem pushHandler {c iid : Nat} {metadata : JavmEntryMeta} :
    Touches env calls stack (stack ++ [⟨.reference, c, iid, metadata⟩]) := by
  refine of_frameOf fun t f held => ?_
  rw [frameOf_concat] at held
  split at held
  · cases held
  · exact held

theorem pushChild {child : KernelFrame Runtime} {target iid : Nat} {metadata : JavmEntryMeta}
    (started : Started env f) (changes : ReflTransGen (Touch calls) f child) :
    Touches env calls stack (stack ++ [⟨.instance child, target, iid, metadata⟩]) := by
  intro t g held
  rw [frameOf_concat] at held
  split at held
  · cases held
    exact ⟨f, .inr started, changes⟩
  · exact ⟨g, .inl held, .refl⟩

theorem take (n : Nat) : Touches env calls stack (stack.take n) := by
  refine of_frameOf fun t f held => ?_
  have inside := lt_length_of_frameOf held
  rwa [frameOf_take (by rw [List.length_take] at inside; omega)] at held

theorem dropped (start : Nat) : Touches env calls stack (dropped stack start) := by
  intro t f held
  obtain ⟨-, old, heldOld, same, waits⟩ := frameOf_dropped held
  refine ⟨old, .inl heldOld, .single ?_⟩
  rw [same]
  exact .forgot fun k some_ => ((waits k).mp some_).1

end Touches

/-! ## Changes of registers -/

theorem setReg_eq (f : KernelFrame Runtime) (i : Fin numRegs) (value : Word64) :
    setReg f i value = f.withParts { f.parts with regs := Function.update f.inst.regs i value } := rfl

theorem atPc_eq (f : KernelFrame Runtime) (pc : BitVec 32) :
    atPc f pc = f.withParts { f.parts with pc := pc.setWidth 64 } := rfl

theorem Touch.setReg (f : KernelFrame Runtime) (i : Fin numRegs) (value : Word64) :
    Touch calls f (setReg f i value) := by
  rw [setReg_eq]
  exact .ran _

theorem Touch.atPc (f : KernelFrame Runtime) (pc : BitVec 32) : Touch calls f (atPc f pc) := by
  rw [atPc_eq]
  exact .ran _

/-! ## Changes of all frames -/

theorem Caught.touches {t : Nat} {payload : Option (InstanceCap Cap)}
    (caught : Caught stack t payload stack') : Touches env calls stack stack' := by
  cases caught with
  | @mk c e f caller found held =>
    exact (Touches.putFrame held (.tail (.single (.received _)) (.setReg ..))).trans
      Touches.pushHandler

theorem Unpaid.touches {pc : BitVec 32} (unpaid : Unpaid env stack pc stack') :
    Touches env calls stack stack' := by
  cases unpaid with
  | retried last held next =>
    exact (Touches.putFrame held (.single (.atPc ..))).trans (Touches.withGas _ _)
  | starved last held exhausted primary handle caught =>
    exact ((Touches.putFrame held (.single (.atPc ..))).trans (Touches.withGas _ _)).trans
      caught.touches

theorem Returned.touches {rearmCow : Runtime → List Nat → Runtime} {value : Word64}
    (integrity : Integrity stack) (returned : Returned rearmCow value stack stack') :
    Touches env calls stack stack' := by
  cases returned with
  | @mk base e below popped parent k own last held origin =>
    -- The caller waits for the instance that comes back.
    have waits : slotIsPending parent k = true := by
      refine (integrity.pending below.target parent k ?_).mpr ⟨base.length, popped, ?_, origin⟩
      · rw [frameOf_append (lt_length_of_frameOf held), held]
      · rw [frameOf_concat_length, own]
    have kept := (sameButSlots_give (setReg (setReg parent 7 value) 8 statusOk) scratchpadSlot
      (popped.slots.peekKey scratchpadSlot)).pendingOrigins
    have lower : Touches env calls (base ++ [e]) base := by
      refine .of_frameOf fun t f held => ?_
      rwa [frameOf_append (lt_length_of_frameOf held)]
    refine lower.trans (Touches.putFrame held ?_)
    refine .tail (.tail (.tail (.single (.setReg parent 7 value)) (.setReg _ 8 statusOk))
      (.received (popped.slots.peekKey scratchpadSlot))) (.returned _ ?_)
    rw [slotIsPending, kept]
    exact waits

/-- The frame on top asks to call a slot, and pays. -/
def CallsSlot (env : Env) (s : Task Runtime) (info : ExitInfo) (f : KernelFrame Runtime)
    (slot : Key) : Prop :=
  (payment env s info).isSome ∧ Asks info opHostCall ∧
    (∃ top, s.stack.getLast? = some top ∧ frameOf s.stack top.target = some f) ∧
    slot = Key.ofReg (f.inst.regs 7)

theorem Effect.touches {rearmCow : Runtime → List Nat → Runtime} {s s' : Task Runtime}
    {info : ExitInfo} (effect : Effect env rearmCow s info s') (integrity : Integrity s.stack)
    (asks : ∀ f slot top, Asks info opHostCall → s.stack.getLast? = some top →
      frameOf s.stack top.target = some f → slot = Key.ofReg (f.inst.regs 7) → calls f slot) :
    Touches env calls s.stack s'.stack := by
  cases effect with
  | edited last held asked edit => exact .putFrame held (.single (.edited edit))
  | @metered top f last held asked named =>
    obtain ⟨value, same⟩ := setGasMeter_fst f s.gas
    rw [same]
    exact .putFrame held (.single (.setReg ..))
  | yielded last held asked named other read caught => exact caught.touches
  | replied finishes last own returned => exact returned.touches integrity
  | unwound finishes last other returned =>
    exact (Touches.dropped _).trans (returned.touches (integrity.dropped (Nat.succ_pos _)))
  | @resumed top below handler yielder last other asked held under waiting lower =>
    obtain ⟨handlerHeld, belowHeld⟩ :=
      integrity.frames_dropLast last other held under waiting lower
    have yielderHeld : frameOf (putFrame s.stack.dropLast top.target
        (putSlot handler scratchpadSlot none)) below.target = some yielder := by
      rw [frameOf_putFrame_ne (Nat.ne_of_gt lower), belowHeld]
    have dropLast : Touches env calls s.stack s.stack.dropLast := by
      rw [List.dropLast_eq_take]
      exact .take _
    exact (dropLast.trans (.putFrame handlerHeld (.single .sent))).trans
      (.putFrame yielderHeld (.tail (.single (.received _)) (.setReg ..)))
  | dropped last other asked => exact .dropped _
  | @called top f parent child catchSet gas last held asked calls_ funded =>
    cases calls_ with
    | @mk slot callee child named free held' built =>
      refine (Touches.putFrame held ?_).trans (.pushChild ?_ (.single (.received _)))
      · exact .tail (.single (.called (asks f slot top asked last held named) free)) .sent
      · cases built with
        | owned built => exact .mk _ built
        | hash stored built => exact .mk _ built

theorem Handled.touches {rearmCow : Runtime → List Nat → Runtime} {s s' : Task Runtime}
    {info : ExitInfo} (integrity : Integrity s.stack)
    (handled : Handled env rearmCow s info (.resume, s')) :
    Touches env (CallsSlot env s info) s.stack s'.stack := by
  cases handled with
  | halted reason handles =>
    refine Effect.touches handles integrity fun f slot top asked => ?_
    rcases asked.1 with call | call <;> (rw [reason] at call; cases call)
  | @paid cost _ pays nonneg handles =>
    have effect : Effect env rearmCow (charge s cost) info s' := handles
    refine effect.touches integrity fun f slot top asked last held named => ?_
    exact ⟨by rw [pays]; rfl, asked, ⟨top, last, held⟩, named⟩
  | unpaid why free unpaid => exact unpaid.touches

theorem RanTop.touches {machine : KernelMachine Runtime} {t s : Task Runtime} {info : ExitInfo}
    (ran : RanTop env machine t info s) : Touches env calls t.stack s.stack := by
  cases ran with
  | mk last held table ran => exact .putFrame held (.single (.ran _))

end

end Jar.Kernel
