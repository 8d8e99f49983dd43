import Jar.Proofs.KernelRuns

/-! The call stack along runs of the kernel: owners and references point down to live invocations,
and a slot is pending exactly while its instance runs. -/

namespace Jar.Kernel

open Javm Ssz Relation Attempt
open scoped Word

variable {Runtime : Type}

/-! ## Stacks that grow and shrink -/

section

variable {stack : List (Entry Runtime)} {t : Nat} {f frame : KernelFrame Runtime}

theorem getElem?_concat_cases {α : Type} {xs : List α} {e e' : α} {i : Nat}
    (found : (xs ++ [e])[i]? = some e') : i = xs.length ∧ e' = e ∨ xs[i]? = some e' := by
  by_cases here : i = xs.length
  · rw [here, List.getElem?_concat_length] at found
    exact .inl ⟨here, (Option.some.inj found).symm⟩
  · have inside := (List.getElem?_eq_some_iff.mp found).1
    rw [List.length_append, List.length_singleton] at inside
    rw [List.getElem?_append_left (by omega)] at found
    exact .inr found

theorem frameOf_concat (e : Entry Runtime) (i : Nat) :
    frameOf (stack ++ [e]) i = if i = stack.length then ownFrame e else frameOf stack i := by
  by_cases here : i = stack.length
  · rw [if_pos here, here, frameOf_concat_length]
  · rw [if_neg here]
    by_cases below : i < stack.length
    · exact frameOf_append below
    · rw [frameOf, frameOf, List.getElem?_eq_none (by simp; omega),
        List.getElem?_eq_none (by omega)]

theorem activations_concat (e : Entry Runtime) :
    activations (stack ++ [e]) = activations stack ++ [⟨e.target, e.metadata.owner⟩] := by
  rw [activations, List.map_append]
  rfl

theorem getLast?_activations {top : Entry Runtime} (last : stack.getLast? = some top) :
    (activations stack).getLast? = some ⟨top.target, top.metadata.owner⟩ := by
  rw [activations, List.getLast?_map, last]
  rfl

/-- Frames that keep their origins and what they wait for keep the stack's integrity. -/
theorem Integrity.congr {stack' : List (Entry Runtime)} (integrity : Integrity stack)
    (shape : StackShape stack')
    (same : ∀ i, (frameOf stack' i).map (fun f => (f.origin, f.pendingOrigins)) =
      (frameOf stack i).map fun f => (f.origin, f.pendingOrigins)) : Integrity stack' := by
  -- Every frame of one stack has a counterpart in the other.
  have back : ∀ {i g}, frameOf stack' i = some g → ∃ g₀, frameOf stack i = some g₀ ∧
      g₀.origin = g.origin ∧ g₀.pendingOrigins = g.pendingOrigins := by
    intro i g held
    have both := same i
    rw [held, Option.map_some] at both
    obtain ⟨g₀, held₀, equal⟩ := Option.map_eq_some_iff.mp both.symm
    exact ⟨g₀, held₀, (Prod.mk.inj equal).1, (Prod.mk.inj equal).2⟩
  have forth : ∀ {i g₀}, frameOf stack i = some g₀ → ∃ g, frameOf stack' i = some g ∧
      g.origin = g₀.origin := by
    intro i g₀ held
    have both := same i
    rw [held, Option.map_some] at both
    obtain ⟨g, heldNew, equal⟩ := Option.map_eq_some_iff.mp both
    exact ⟨g, heldNew, (Prod.mk.inj equal).1⟩
  refine { shape with pending := fun t f k held => ?_, unique := ?_ }
  · obtain ⟨f₀, held₀, -, pending⟩ := back held
    rw [← pending, integrity.pending t f₀ k held₀]
    constructor
    · rintro ⟨i, g, heldChild, from_⟩
      obtain ⟨g', heldChild', origin⟩ := forth heldChild
      exact ⟨i, g', heldChild', origin.trans from_⟩
    · rintro ⟨i, g, heldChild, from_⟩
      obtain ⟨g', heldChild', origin, -⟩ := back heldChild
      exact ⟨i, g', heldChild', origin.trans from_⟩
  · intro i j g g' origin held held' from_ from'
    obtain ⟨g₀, held₀, same₀, -⟩ := back held
    obtain ⟨g₁, held₁, same₁, -⟩ := back held'
    exact integrity.unique i j g₀ g₁ origin held₀ held₁ (same₀.trans from_) (same₁.trans from')

/-- A frame that keeps its origin and what it waits for may change otherwise. -/
theorem Integrity.putFrame (integrity : Integrity stack) (held : frameOf stack t = some f)
    (resident : frame.Resident) (origin : frame.origin = f.origin)
    (pending : frame.pendingOrigins = f.pendingOrigins) : Integrity (putFrame stack t frame) := by
  refine integrity.congr (integrity.toStackShape.putFrame held resident origin) fun i => ?_
  by_cases here : i = t
  · rw [here, frameOf_putFrame_self held, held, Option.map_some, Option.map_some, origin, pending]
  · rw [frameOf_putFrame_ne here]

theorem Integrity.withGas (integrity : Integrity stack) (i : Nat) (gas : FrameGas) :
    Integrity (withGas stack i gas) :=
  integrity.congr (integrity.toStackShape.withGas i gas) fun j => by rw [frameOf_withGas]

theorem StackShape.pushHandler {below : Activation} {c target iid : Nat} {owner : Option Nat}
    {gas : FrameGas} {catchSet : List Key} (shape : StackShape stack)
    (last : (activations stack).getLast? = some below)
    (caller : TransGen (Activation.Owns (activations stack)) below.target c)
    (found : (activations stack)[c]? = some ⟨target, owner⟩) :
    StackShape (stack ++ [⟨.reference, c, iid, ⟨owner, catchSet, gas⟩⟩]) := by
  have lower : c < stack.length := by
    rw [← length_activations]
    exact (List.getElem?_eq_some_iff.mp found).1
  refine ⟨?_, fun i e' found' => ?_, fun i e' g found' own => ?_⟩
  · rw [activations_concat]
    exact .catch shape.shaped last caller found
  · rcases getElem?_concat_cases found' with ⟨here, rfl⟩ | old
    · simp only [ownFrame, Option.isSome_none, here]
      constructor
      · intro none_
        cases none_
      · intro same
        omega
    · exact shape.own i e' old
  · rcases getElem?_concat_cases found' with ⟨-, rfl⟩ | old
    · cases own
    · exact shape.frames i e' g old own

theorem Integrity.pushHandler {below : Activation} {c target iid : Nat} {owner : Option Nat}
    {gas : FrameGas} {catchSet : List Key} (integrity : Integrity stack)
    (last : (activations stack).getLast? = some below)
    (caller : TransGen (Activation.Owns (activations stack)) below.target c)
    (found : (activations stack)[c]? = some ⟨target, owner⟩) :
    Integrity (stack ++ [⟨.reference, c, iid, ⟨owner, catchSet, gas⟩⟩]) := by
  refine integrity.congr (integrity.toStackShape.pushHandler last caller found) fun i => ?_
  rw [frameOf_concat]
  by_cases here : i = stack.length
  · rw [if_pos here, frameOf, here, List.getElem?_eq_none (le_refl _)]
    rfl
  · rw [if_neg here]

theorem StackShape.pushChild {below : Activation} {child : KernelFrame Runtime} {k : Key}
    {gas : FrameGas} {catchSet : List Key} {iid n : Nat} (shape : StackShape stack)
    (size : n = stack.length) (last : (activations stack).getLast? = some below)
    (resident : child.Resident) (origin : child.origin = some ⟨below.target, k⟩) :
    StackShape (stack ++ [⟨.instance child, n, iid, ⟨some below.target, catchSet, gas⟩⟩]) := by
  subst size
  refine ⟨?_, fun i e' found' => ?_, fun i e' g found' own => ?_⟩
  · rw [activations_concat, ← length_activations]
    exact .call shape.shaped last
  · rcases getElem?_concat_cases found' with ⟨here, rfl⟩ | old
    · simp [ownFrame, here]
    · exact shape.own i e' old
  · rcases getElem?_concat_cases found' with ⟨-, rfl⟩ | old
    · cases own
      exact ⟨resident, by rw [origin]; rfl⟩
    · exact shape.frames i e' g old own

def originAt (stack : List (Entry Runtime)) (i : Nat) : Option FrameOrigin :=
  (frameOf stack i).bind (·.origin)

theorem originAt_eq_some {i : Nat} {origin : FrameOrigin} : originAt stack i = some origin ↔
    ∃ g, frameOf stack i = some g ∧ g.origin = some origin := Option.bind_eq_some_iff

theorem Integrity.pending_iff (integrity : Integrity stack) (held : frameOf stack t = some f)
    (k : Key) : (f.pendingOrigins.lookup k).isSome ↔ ∃ i, originAt stack i = some ⟨t, k⟩ := by
  rw [integrity.pending t f k held]
  simp only [originAt_eq_some]

theorem Integrity.eq_of_originAt (integrity : Integrity stack) {i j : Nat} {origin : FrameOrigin}
    (here : originAt stack i = some origin) (there : originAt stack j = some origin) : i = j := by
  obtain ⟨g, held, from_⟩ := originAt_eq_some.mp here
  obtain ⟨g', held', from'⟩ := originAt_eq_some.mp there
  exact integrity.unique i j g g' origin held held' from_ from'

theorem Integrity.of_originAt (shape : StackShape stack)
    (pending : ∀ (t : Nat) (f : KernelFrame Runtime) (k : Key), frameOf stack t = some f →
      ((f.pendingOrigins.lookup k).isSome ↔ ∃ i, originAt stack i = some ⟨t, k⟩))
    (unique : ∀ (i j : Nat) (origin : FrameOrigin), originAt stack i = some origin →
      originAt stack j = some origin → i = j) : Integrity stack := by
  refine { shape with pending := fun t f k held => ?_, unique := fun i j g g' origin => ?_ }
  · rw [pending t f k held]
    simp only [originAt_eq_some]
  · intro held held' from_ from'
    exact unique i j origin (originAt_eq_some.mpr ⟨g, held, from_⟩)
      (originAt_eq_some.mpr ⟨g', held', from'⟩)

theorem originAt_putFrame (held : frameOf stack t = some f) (origin : frame.origin = f.origin)
    (i : Nat) : originAt (putFrame stack t frame) i = originAt stack i := by
  unfold originAt
  by_cases here : i = t
  · rw [here, frameOf_putFrame_self held, held, Option.bind_some, Option.bind_some, origin]
  · rw [frameOf_putFrame_ne here]

theorem originAt_concat (e : Entry Runtime) (i : Nat) : originAt (stack ++ [e]) i =
    if i = stack.length then (ownFrame e).bind (·.origin) else originAt stack i := by
  unfold originAt
  rw [frameOf_concat]
  split <;> rfl

/-- The instance of a free slot starts to run in a frame of its own. -/
theorem Integrity.pushChild {below : Activation} {parent child : KernelFrame Runtime} {k : Key}
    {gas : FrameGas} {catchSet : List Key} {iid : Nat} (integrity : Integrity stack)
    (last : (activations stack).getLast? = some below)
    (held : frameOf stack below.target = some f) (free : f.pendingOrigins.lookup k = none)
    (resident : parent.Resident) (kept : parent.origin = f.origin)
    (waits : parent.pendingOrigins = f.pendingOrigins.insert k ())
    (residentChild : child.Resident) (origin : child.origin = some ⟨below.target, k⟩)
    (settled : child.pendingOrigins = SortedMap.empty) :
    Integrity (Kernel.putFrame stack below.target parent ++
      [⟨.instance child, stack.length, iid, ⟨some below.target, catchSet, gas⟩⟩]) := by
  have shape := integrity.toStackShape.putFrame held resident kept
  -- No frame came out of this slot before.
  have noOther : ∀ i, originAt stack i ≠ some ⟨below.target, k⟩ := by
    intro i same
    have := (integrity.pending_iff held k).mpr ⟨i, same⟩
    rw [free] at this
    cases this
  have origins : ∀ i, originAt (Kernel.putFrame stack below.target parent ++
      [⟨.instance child, stack.length, iid, ⟨some below.target, catchSet, gas⟩⟩]) i =
      if i = stack.length then some ⟨below.target, k⟩ else originAt stack i := by
    intro i
    rw [originAt_concat, length_putFrame, originAt_putFrame held kept]
    simp [ownFrame, origin]
  have fresh : originAt stack stack.length = none := by
    rw [originAt, frameOf, List.getElem?_eq_none (le_refl _)]
    rfl
  refine .of_originAt ?_ (fun t f' k' held' => ?_) fun i j o here there => ?_
  · refine shape.pushChild length_putFrame.symm ?_ residentChild origin
    rw [activations_putFrame]
    exact last
  · simp only [origins]
    rw [frameOf_concat, length_putFrame] at held'
    split at held'
    next top =>
      -- The child waits for nothing, and nothing came out of it.
      cases held'
      subst top
      have none_ : (child.pendingOrigins.lookup k').isSome = false := by
        rw [settled]
        rfl
      rw [none_]
      refine ⟨fun waits => (by cases waits), ?_⟩
      rintro ⟨i, came⟩
      split at came
      · have same := (FrameOrigin.mk.inj (Option.some.inj came)).1
        have := lt_length_of_frameOf held
        omega
      · obtain ⟨g, heldChild, from_⟩ := originAt_eq_some.mp came
        have := integrity.owner_lt heldChild from_
        have := lt_length_of_frameOf heldChild
        simp only at *
        omega
    next old =>
      by_cases caller : t = below.target
      · subst caller
        rw [frameOf_putFrame_self held] at held'
        cases held'
        rw [waits]
        by_cases same : k' = k
        · subst same
          simp only [SortedMap.lookup_insert_self, Option.isSome_some, true_iff]
          exact ⟨stack.length, if_pos rfl⟩
        · rw [SortedMap.lookup_insert_ne _ _ same, integrity.pending_iff held]
          constructor
          · rintro ⟨i, came⟩
            refine ⟨i, ?_⟩
            rwa [if_neg fun at_ => by rw [at_, fresh] at came; cases came]
          · rintro ⟨i, came⟩
            split at came
            · exact absurd (FrameOrigin.mk.inj (Option.some.inj came)).2.symm same
            · exact ⟨i, came⟩
      · rw [frameOf_putFrame_ne caller] at held'
        rw [integrity.pending_iff held']
        constructor
        · rintro ⟨i, came⟩
          refine ⟨i, ?_⟩
          rwa [if_neg fun at_ => by rw [at_, fresh] at came; cases came]
        · rintro ⟨i, came⟩
          split at came
          · exact absurd (FrameOrigin.mk.inj (Option.some.inj came)).1.symm caller
          · exact ⟨i, came⟩
  · rw [origins] at here there
    split at here <;> split at there
    · omega
    · rw [← here] at there
      exact absurd there (noOther j)
    · rw [← there] at here
      exact absurd here (noOther i)
    · exact integrity.eq_of_originAt here there

/-- The instance of the frame on top goes back to its slot. -/
theorem Integrity.popChild {base : List (Entry Runtime)} {e below : Entry Runtime}
    {popped parent : KernelFrame Runtime} {k : Key} (integrity : Integrity (base ++ [e]))
    (own : ownFrame e = some popped) (last : base.getLast? = some below)
    (held : frameOf base below.target = some parent)
    (origin : popped.origin = some ⟨below.target, k⟩) (resident : frame.Resident)
    (kept : frame.origin = parent.origin)
    (waits : frame.pendingOrigins = parent.pendingOrigins.remove k) :
    Integrity (Kernel.putFrame base below.target frame) := by
  have nonempty : base ≠ [] := fun empty => by rw [empty] at last; cases last
  have shape : StackShape base := by
    have := integrity.toStackShape.take (List.length_pos_iff.mpr nonempty)
    rwa [List.take_left] at this
  have origins : ∀ i, originAt (base ++ [e]) i =
      if i = base.length then some ⟨below.target, k⟩ else originAt base i := by
    intro i
    rw [originAt_concat, own]
    simp [origin]
  have fresh : originAt base base.length = none := by
    rw [originAt, frameOf, List.getElem?_eq_none (le_refl _)]
    rfl
  have top : originAt (base ++ [e]) base.length = some ⟨below.target, k⟩ := by
    rw [origins, if_pos rfl]
  have lower : ∀ {i o}, originAt base i = some o → originAt (base ++ [e]) i = some o := by
    intro i o came
    rw [origins, if_neg fun at_ => by rw [at_, fresh] at came; cases came]
    exact came
  -- Nothing else came out of this slot.
  have noOther : ∀ i, originAt base i ≠ some ⟨below.target, k⟩ := by
    intro i came
    have same := integrity.eq_of_originAt (lower came) top
    rw [same, fresh] at came
    cases came
  refine .of_originAt (shape.putFrame held resident kept) (fun t f' k' held' => ?_)
    fun i j o here there => ?_
  · simp only [originAt_putFrame held kept]
    have old : ∀ g, frameOf base t = some g → ((g.pendingOrigins.lookup k').isSome ↔
        ∃ i, originAt (base ++ [e]) i = some ⟨t, k'⟩) := by
      intro g heldOld
      exact integrity.pending_iff (by rwa [frameOf_append (lt_length_of_frameOf heldOld)]) k'
    by_cases caller : t = below.target ∧ k' = k
    · obtain ⟨rfl, rfl⟩ := caller
      rw [frameOf_putFrame_self held] at held'
      cases held'
      rw [waits, SortedMap.lookup_remove_self]
      refine ⟨fun waits => (by cases waits), ?_⟩
      rintro ⟨i, came⟩
      exact absurd came (noOther i)
    · -- Every other slot waits for the frames that it waited for.
      have same : ∃ g, frameOf base t = some g ∧
          f'.pendingOrigins.lookup k' = g.pendingOrigins.lookup k' := by
        by_cases here : t = below.target
        · subst here
          rw [frameOf_putFrame_self held] at held'
          cases held'
          refine ⟨parent, held, ?_⟩
          rw [waits, SortedMap.lookup_remove_ne _ fun eq => caller ⟨rfl, eq⟩]
        · rw [frameOf_putFrame_ne here] at held'
          exact ⟨f', held', rfl⟩
      obtain ⟨g, heldOld, sameWait⟩ := same
      rw [sameWait, old g heldOld]
      constructor
      · rintro ⟨i, came⟩
        rw [origins] at came
        split at came
        · obtain ⟨sameFrame, sameSlot⟩ := FrameOrigin.mk.inj (Option.some.inj came)
          exact absurd ⟨sameFrame.symm, sameSlot.symm⟩ caller
        · exact ⟨i, came⟩
      · rintro ⟨i, came⟩
        exact ⟨i, lower came⟩
  · rw [originAt_putFrame held kept] at here there
    exact integrity.eq_of_originAt (lower here) (lower there)

/-! ## Effects keep the integrity -/

theorem Integrity.caught {below : Activation} {payload : Option (InstanceCap Cap)}
    {stack' : List (Entry Runtime)} (integrity : Integrity stack)
    (last : (activations stack).getLast? = some below)
    (caught : Caught stack below.target payload stack') : Integrity stack' := by
  cases caught with
  | @mk c e f caller found held =>
    -- The catcher keeps its origin and what it waits for.
    have kept := sameButSlots_give f scratchpadSlot
      (payload.map fun inst => .owned (.new (.inst inst)))
    have integrity' : Integrity (Kernel.putFrame stack c (setReg (give f scratchpadSlot
        (payload.map fun inst => .owned (.new (.inst inst)))) 8 statusYielded)) :=
      integrity.putFrame held (kept.resident (integrity.resident held)) kept.origin
        kept.pendingOrigins
    apply integrity'.pushHandler
    · rw [activations_putFrame]
      exact last
    · rwa [activations_putFrame]
    · rw [activations_putFrame]
      exact StackShape.activation found

theorem Integrity.unpaid {env : Env} {pc : BitVec 32} {stack' : List (Entry Runtime)}
    (integrity : Integrity stack) (unpaid : Unpaid env stack pc stack') : Integrity stack' := by
  cases unpaid with
  | @retried top f gas last held next =>
    have integrity' : Integrity (Kernel.putFrame stack top.target (atPc f pc)) :=
      integrity.putFrame held (integrity.resident held :) rfl rfl
    exact integrity'.withGas _ gas
  | @starved top f meter payload stack' last held exhausted primary handle caught =>
    have integrity' : Integrity (Kernel.putFrame stack top.target (atPc f pc)) :=
      integrity.putFrame held (integrity.resident held :) rfl rfl
    have last' := getLast?_activations last
    rw [← activations_putFrame, ← activations_withGas] at last'
    exact (integrity'.withGas (stack.length - 1) top.metadata.gas.resetToPrimary).caught last' caught

theorem Integrity.returned {rearmCow : Runtime → List Nat → Runtime} {value : Word64}
    {stack' : List (Entry Runtime)} (integrity : Integrity stack)
    (returned : Returned rearmCow value stack stack') : Integrity stack' := by
  cases returned with
  | @mk base e below popped parent k own last held origin =>
    have shape : StackShape base := by
      have nonempty : base ≠ [] := fun empty => by rw [empty] at last; cases last
      have := integrity.toStackShape.take (List.length_pos_iff.mpr nonempty)
      rwa [List.take_left] at this
    have given := sameButSlots_give (setReg (setReg parent 7 value) 8 statusOk) scratchpadSlot
      (popped.slots.peekKey scratchpadSlot)
    have kept := sameButSlots_putSlot
      (withoutPending (reflect parent value (popped.slots.peekKey scratchpadSlot)) k) k
      (some (.owned (park rearmCow (putSlot popped scratchpadSlot none))))
    refine integrity.popChild own last held origin ?_ ?_ ?_
    · exact kept.resident (given.resident (shape.resident held :))
    · exact kept.origin.trans given.origin
    · rw [kept.pendingOrigins]
      exact congrArg (·.remove k) given.pendingOrigins

theorem Integrity.popHandler {top : Entry Runtime} (integrity : Integrity stack)
    (last : stack.getLast? = some top) (other : top.target ≠ stack.length - 1) :
    Integrity stack.dropLast := by
  have found : stack[stack.length - 1]? = some top := by rw [← List.getLast?_eq_getElem?, last]
  have pos : 0 < stack.length - 1 := by
    have := integrity.target_le found
    omega
  rw [List.dropLast_eq_take]
  refine integrity.congr (integrity.toStackShape.take pos) fun i => ?_
  rcases Nat.lt_trichotomy i (stack.length - 1) with below | rfl | above
  · rw [frameOf_take below]
  · -- The handler has no frame of its own.
    have noFrame : ownFrame top = none := by
      rw [← Option.not_isSome_iff_eq_none, integrity.own _ top found]
      exact other
    rw [frameOf, frameOf, found, Option.bind_some, noFrame,
      List.getElem?_eq_none (by rw [List.length_take]; omega)]
    rfl
  · rw [frameOf, frameOf, List.getElem?_eq_none (by rw [List.length_take]; omega),
      List.getElem?_eq_none (by omega)]

theorem Integrity.frames_dropLast {top below : Entry Runtime}
    {handler yielder : KernelFrame Runtime} (integrity : Integrity stack)
    (last : stack.getLast? = some top) (other : top.target ≠ stack.length - 1)
    (held : frameOf stack top.target = some handler)
    (under : stack.dropLast.getLast? = some below)
    (waiting : frameOf stack below.target = some yielder) (lower : top.target < below.target) :
    frameOf stack.dropLast top.target = some handler ∧
      frameOf stack.dropLast below.target = some yielder := by
  have found := Activation.getElem?_of_getLast? under
  have inside : below.target < stack.length - 1 := by
    rw [← List.length_dropLast]
    exact lt_of_le_of_lt ((integrity.popHandler last other).target_le found)
      (List.getElem?_eq_some_iff.mp found).1
  have kept : ∀ {t : Nat}, t < stack.length - 1 → frameOf stack.dropLast t = frameOf stack t := by
    intro t below
    rw [List.dropLast_eq_take, frameOf_take below]
  exact ⟨(kept (lower.trans inside)).trans held, (kept inside).trans waiting⟩

theorem Edit.sameButSlots {f' : KernelFrame Runtime} (edit : Edit f f') : SameButSlots f f' := by
  cases edit with
  | one cap free => exact sameButSlots_putSlot ..
  | two cap cap' free free' =>
    exact (sameButSlots_putSlot ..).trans (sameButSlots_putSlot ..)

theorem setGasMeter_fst (f : KernelFrame Runtime) (gas : TaskGasState Key) :
    ∃ value, (setGasMeter f gas).1 = setReg f 7 value := ⟨_, rfl⟩

theorem Integrity.effect {env : Env} {rearmCow : Runtime → List Nat → Runtime} {s s' : Task Runtime}
    {info : ExitInfo} (integrity : Integrity s.stack) (effect : Effect env rearmCow s info s') :
    Integrity s'.stack := by
  cases effect with
  | edited last held asked edit =>
    have kept := edit.sameButSlots
    exact integrity.putFrame held (kept.resident (integrity.resident held)) kept.origin
      kept.pendingOrigins
  | @metered top f last held asked named =>
    obtain ⟨value, same⟩ := setGasMeter_fst f s.gas
    have resident : f.Resident := integrity.resident held
    exact integrity.putFrame held (by rw [same]; exact resident) (by rw [same]; rfl)
      (by rw [same]; rfl)
  | yielded last held asked named other read caught =>
    exact integrity.caught (getLast?_activations last) caught
  | replied finishes last own returned => exact integrity.returned returned
  | unwound finishes last other returned => exact (integrity.dropped (Nat.succ_pos _)).returned returned
  | @resumed top below handler yielder last other asked held under waiting lower =>
    have integrity' := integrity.popHandler last other
    have taken := sameButSlots_putSlot handler scratchpadSlot none
    have given := sameButSlots_give yielder scratchpadSlot (handler.slots.peekKey scratchpadSlot)
    obtain ⟨held', yielderHeld⟩ :=
      integrity.frames_dropLast last other held under waiting lower
    have integrity'' : Integrity (Kernel.putFrame s.stack.dropLast top.target
        (putSlot handler scratchpadSlot none)) :=
      integrity'.putFrame held' (taken.resident (integrity.resident held)) taken.origin
        taken.pendingOrigins
    have waiting' : frameOf (Kernel.putFrame s.stack.dropLast top.target
        (putSlot handler scratchpadSlot none)) below.target = some yielder := by
      rw [frameOf_putFrame_ne (Nat.ne_of_gt lower), yielderHeld]
    exact integrity''.putFrame waiting' (given.resident (integrity.resident waiting) :) given.origin
      given.pendingOrigins
  | dropped last other asked => exact integrity.dropped (Nat.succ_pos _)
  | @called top f parent child catchSet gas last held asked calls funded =>
    obtain ⟨residentParent, residentChild⟩ := calls.resident (integrity.resident held)
    have taken := sameButSlots_putSlot parent scratchpadSlot none
    have given := sameButSlots_give child scratchpadSlot (parent.slots.peekKey scratchpadSlot)
    cases calls with
    | @mk slot callee child named free held' built =>
      have opened := sameButSlots_putSlot f slot none
      have inherited := sameButSlots_withRootCnode child
        (inheritSlots (withPending (putSlot f slot none) slot).slots child.slots)
      have start : child.origin = some ⟨top.target, slot⟩ ∧
          child.pendingOrigins = SortedMap.empty := by
        cases built with
        | owned built => exact ⟨built.origin, built.pendingOrigins⟩
        | hash stored built => exact ⟨built.origin, built.pendingOrigins⟩
      have notPending : f.pendingOrigins.lookup slot = none := by
        rw [← Option.not_isSome_iff_eq_none, ← slotIsPending, free]
        exact nofun
      refine integrity.pushChild (getLast?_activations last) held notPending
        (taken.resident residentParent) ?_ ?_ (given.resident residentChild) ?_ ?_
      · exact taken.origin.trans opened.origin
      · rw [taken.pendingOrigins]
        exact congrArg (·.insert slot ()) opened.pendingOrigins
      · exact given.origin.trans (inherited.origin.trans start.1)
      · exact given.pendingOrigins.trans (inherited.pendingOrigins.trans start.2)

theorem Integrity.handled {env : Env} {rearmCow : Runtime → List Nat → Runtime}
    {s s' : Task Runtime} {info : ExitInfo} (integrity : Integrity s.stack)
    (handled : Handled env rearmCow s info (.resume, s')) : Integrity s'.stack := by
  cases handled with
  | halted reason handles => exact integrity.effect handles
  | @paid cost _ pays nonneg handles =>
    have integrity' : Integrity (charge s cost).stack := integrity
    exact integrity'.effect handles
  | unpaid why free unpaid => exact integrity.unpaid unpaid

theorem Integrity.ranTop {env : Env} {machine : KernelMachine Runtime} {t s : Task Runtime}
    {info : ExitInfo} (integrity : Integrity t.stack) (ran : RanTop env machine t info s) :
    Integrity s.stack := by
  cases ran with
  | mk last held table ran =>
    exact integrity.putFrame held (integrity.resident held :) rfl rfl

theorem Integrity.root {iid : Nat} {gas : FrameGas} {catchSet : List Key} (resident : f.Resident)
    (origin : f.origin = none) (settled : f.pendingOrigins = SortedMap.empty) :
    Integrity [⟨.instance f, 0, iid, ⟨none, catchSet, gas⟩⟩] := by
  have only : ∀ {i : Nat} {e : Entry Runtime},
      [(⟨.instance f, 0, iid, ⟨none, catchSet, gas⟩⟩ : Entry Runtime)][i]? = some e →
      i = 0 ∧ e = ⟨.instance f, 0, iid, ⟨none, catchSet, gas⟩⟩ := by
    intro i e found
    cases i with
    | zero => exact ⟨rfl, (Option.some.inj found).symm⟩
    | succ i => cases found
  have noOrigin : ∀ i o,
      originAt [(⟨.instance f, 0, iid, ⟨none, catchSet, gas⟩⟩ : Entry Runtime)] i ≠ some o := by
    intro i o came
    obtain ⟨g, held, from_⟩ := originAt_eq_some.mp came
    obtain ⟨e, found, own⟩ := Option.bind_eq_some_iff.mp held
    obtain ⟨-, rfl⟩ := only found
    cases own
    rw [origin] at from_
    cases from_
  refine .of_originAt ⟨.root, fun i e found => ?_, fun i e g found own => ?_⟩
    (fun t g k held => ?_) fun i j o came => absurd came (noOrigin i o)
  · obtain ⟨rfl, rfl⟩ := only found
    simp [ownFrame]
  · obtain ⟨rfl, rfl⟩ := only found
    cases own
    exact ⟨resident, by rw [origin]; rfl⟩
  · obtain ⟨e, found, own⟩ := Option.bind_eq_some_iff.mp held
    obtain ⟨-, rfl⟩ := only found
    cases own
    rw [settled]
    refine ⟨fun waits => (by cases waits), ?_⟩
    rintro ⟨i, came⟩
    exact absurd came (noOrigin i _)

end

/-! ## Reachable stacks -/

section

variable {env : Env} {machine : KernelMachine Runtime} {t s : Task Runtime} {info : ExitInfo}

/-- What every step of the kernel keeps. -/
structure Task.Sound (t : Task Runtime) : Prop where
  integrity : Integrity t.stack
  short : Funded (fun gas => ShortKeys gas.meters) t.stack

theorem Task.Sound.ranTop (sound : Task.Sound t) (ran : RanTop env machine t info s) :
    Task.Sound s := ⟨sound.integrity.ranTop ran, sound.short.ranTop ran⟩

/-- Handling the exit of a frame: no broken origins, and one of the known effects. -/
theorem Task.Sound.steps (sound : Task.Sound s) :
    Steps (ReadsMissing env s.stack) (Handled env machine.rearmCow s info)
      (dispatchExit (javm env machine) s info) :=
  dispatchExit_steps sound.integrity fun _ member => sound.short.of_mem member

theorem Reachable.sound (reached : Reachable env machine t) : Task.Sound t := by
  induction reached with
  | start started =>
    obtain ⟨inst, f, gas, stored, built, scope, rfl⟩ := newTask_eq_pure started
    refine ⟨.root built.resident built.origin built.pendingOrigins, fun metadata member => ?_⟩
    rw [List.mem_singleton.mp member]
    rcases scope with rfl | declared
    · exact nofun
    · exact declared.short
  | step reached polled sound =>
    obtain ⟨info, s, ran, handled⟩ := pollOnce_eq_pure polled
    have sound' := sound.ranTop (runTop_eq_pure ran)
    have effect := Ends.of_pure sound'.steps handled
    exact ⟨sound'.integrity.handled effect, sound'.short.handled closed_shortKeys effect⟩

theorem buildRuntime_ne_crash {lane : Nat} {f : KernelFrame Runtime} :
    buildRuntime env machine lane f ≠ crash := by
  intro panics
  unfold buildRuntime at panics
  rcases bind_eq_crash.mp panics with image | ⟨img, -, panics⟩
  · unfold Env.getImage at image
    split at image <;> cases image
  · split at panics
    · cases panics
    · simp only at panics
      split at panics <;> cases panics

theorem prepareEntry_ne_crash {lane : Nat} {f : KernelFrame Runtime} {gas : Int} :
    prepareEntry (javm env machine) lane f gas ≠ crash := by
  intro panics
  unfold prepareEntry at panics
  simp only at panics
  split at panics
  · cases panics
  · rcases bind_eq_crash.mp panics with build | ⟨runtime, -, panics⟩
    · exact buildRuntime_ne_crash build
    · cases panics

/-- A panic before the exit is handled: the page table of the frame on top belongs to another
lane. -/
theorem Task.Sound.lane_of_runTop (sound : Task.Sound t)
    (panics : runTop (javm env machine) machine.toMachine t = crash) :
    ∃ f runtime, frameAt t.stack t.topIdx = pure f ∧ (f.runtime = some runtime ∨
      f.runtime = none ∧ buildRuntime env machine t.lane f = pure runtime) ∧
      machine.lane runtime ≠ t.lane := by
  obtain ⟨top, last⟩ := sound.integrity.top
  have found := found_top last
  obtain ⟨f, held⟩ := sound.integrity.frameOf_target found
  have running := frameAt_eq_pure.mpr ⟨top, found, held⟩
  unfold runTop at panics
  rw [if_neg sound.integrity.ne_nil] at panics
  simp only at panics
  rw [running, pure_bind] at panics
  rcases bind_eq_crash.mp panics with entry | ⟨_, -, panics⟩
  · unfold runOneEntry at entry
    rcases bind_eq_crash.mp entry with prepare | ⟨native, prepared, entry⟩
    · exact absurd prepare prepareEntry_ne_crash
    · rcases bind_eq_crash.mp entry with enter | ⟨_, -, panics⟩
      · obtain ⟨runtime, rfl, table⟩ := prepareEntry_eq_pure prepared
        unfold enterFrame at enter
        split at enter
        next other => exact ⟨f, runtime, running, table, other⟩
        · cases enter
      · cases panics
  · cases panics

/-- A call stack whose indices point down to live invocations, and whose pending slots are those
that the invocations came from. -/
structure CallStackIntact (stack : List (Entry Runtime)) : Prop where
  nonempty : stack ≠ []
  /-- Every entry runs the frame of a live invocation. -/
  frames : ∀ idx < stack.length, ∃ f, frameAt stack idx = pure f
  /-- A slot is pending exactly if one frame above came from it. -/
  pending : ∀ (i : Nat) (f : KernelFrame Runtime) (k : Key), frameOf stack i = some f →
    (slotIsPending f k = true ↔
      ∃! j, i < j ∧ ∃ g, frameOf stack j = some g ∧ g.origin = some ⟨i, k⟩)
  /-- Every frame that came from a slot has a live frame with this slot below. -/
  origins : ∀ (j : Nat) (g : KernelFrame Runtime) (origin : FrameOrigin),
    frameOf stack j = some g → g.origin = some origin →
    origin.owner < j ∧ ∃ f, frameOf stack origin.owner = some f ∧
      slotIsPending f origin.slot = true
  /-- Owners are live invocations strictly below. -/
  owners : ∀ (i : Nat) (e : Entry Runtime) (owner : Nat), stack[i]? = some e →
    e.metadata.owner = some owner → owner < i ∧ ∃ f, frameOf stack owner = some f
  /-- Handlers run live invocations strictly below. -/
  references : ∀ (i : Nat) (e : Entry Runtime), stack[i]? = some e → e.kind = .reference →
    e.target < i ∧ ∃ f, frameOf stack e.target = some f

theorem Integrity.callStackIntact {stack : List (Entry Runtime)} (integrity : Integrity stack) :
    CallStackIntact stack where
  nonempty := integrity.ne_nil
  frames idx inside := by
    have found := List.getElem?_eq_getElem inside
    obtain ⟨f, held⟩ := integrity.frameOf_target found
    exact ⟨f, frameAt_eq_pure.mpr ⟨_, found, held⟩⟩
  pending i f k held := by
    rw [slotIsPending, integrity.pending i f k held]
    constructor
    · rintro ⟨j, g, heldChild, from_⟩
      refine ⟨j, ⟨integrity.owner_lt heldChild from_, g, heldChild, from_⟩, ?_⟩
      rintro j' ⟨-, g', heldOther, from'⟩
      exact integrity.unique j' j g' g _ heldOther heldChild from' from_
    · rintro ⟨j, ⟨-, g, heldChild, from_⟩, -⟩
      exact ⟨j, g, heldChild, from_⟩
  origins j g origin held from_ := by
    obtain ⟨e, found, own, same⟩ := integrity.target_of_frameOf held
    have owner := (integrity.frames j e g found own).2
    rw [from_, Option.map_some] at owner
    obtain ⟨lower, f, heldOwner⟩ := integrity.frameOf_owner found owner.symm
    exact ⟨same ▸ lower, f, heldOwner,
      (integrity.pending origin.owner f origin.slot heldOwner).mpr ⟨j, g, held, from_⟩⟩
  owners i e owner found is := by
    obtain ⟨lower, f, held⟩ := integrity.frameOf_owner found is
    exact ⟨lt_of_lt_of_le lower (integrity.target_le found), f, held⟩
  references i e found kind := by
    have other : e.target ≠ i := by
      intro same
      have own := (integrity.own i e found).mpr same
      rw [ownFrame, kind] at own
      cases own
    exact ⟨lt_of_le_of_ne (integrity.target_le found) other, integrity.frameOf_target found⟩

/-- In every reachable task the call stack is intact, before and after the frame on top ran.
Handling the exit never finds a broken origin, and no panic comes from the call stack: before the
exit it is the page table of the frame on top, which belongs to another lane, after it a read of a
missing page. -/
theorem callStack_integrity (reached : Reachable env machine t) :
    CallStackIntact t.stack ∧
    (runTop (javm env machine) machine.toMachine t = crash →
      ∃ f runtime, frameAt t.stack t.topIdx = pure f ∧ (f.runtime = some runtime ∨
        f.runtime = none ∧ buildRuntime env machine t.lane f = pure runtime) ∧
        machine.lane runtime ≠ t.lane) ∧
    ∀ info s, runTop (javm env machine) machine.toMachine t = pure (info, s) →
      CallStackIntact s.stack ∧
      dispatchExit (javm env machine) s info ≠ throw errPendingOriginInvariant ∧
      (dispatchExit (javm env machine) s info = crash → ReadsMissing env s.stack) := by
  have sound := reached.sound
  refine ⟨sound.integrity.callStackIntact, sound.lane_of_runTop, fun info s ran => ?_⟩
  have sound' := sound.ranTop (runTop_eq_pure ran)
  refine ⟨sound'.integrity.callStackIntact, fun fails => ?_, Ends.of_crash sound'.steps⟩
  exact Ends.of_throw sound'.steps fails rfl

/-- A guest that calls the instance of a slot. -/
theorem callStack_integrity_call : ∃ t : Task Unit,
    Reachable (smallEnv (smallImage [] [⟨[5], hashOf 2⟩]))
      (smallMachine opHostCall fun i => if i = 7 then 5 else 0) t ∧
    t.stack.length = 2 ∧ CallStackIntact t.stack := by
  obtain ⟨t, reached, two⟩ := exists_reachable (smallEnv (smallImage [] [⟨[5], hashOf 2⟩]))
    (smallMachine opHostCall fun i => if i = 7 then 5 else 0) zeroHash 100000 1 (·.stack.length) rfl
  exact ⟨t, reached, two, (callStack_integrity reached).1⟩

end

end Jar.Kernel
