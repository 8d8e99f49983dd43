import Jar.Proofs.CallStack
import Jar.Proofs.CatchSets
import Mathlib.Algebra.BigOperators.Group.Finset.Piecewise
import Mathlib.Algebra.BigOperators.Pi

/-! Gas along runs of the kernel: switching between scopes moves no gas, and every change of the sum
of all balances is one that native code, a charge or the setting of a meter made. -/

namespace Jar.Kernel

open Javm Ssz Attempt
open scoped Word

/-! ## Balances of scopes -/

namespace TaskGasState

section

variable {MeterKey : Type} [LinearOrder MeterKey] (g g' : TaskGasState MeterKey)

/-- The balance of a scope: the live counter for the running one, the banked value for the others.
The scope without a meter is the host's. -/
def balance (scope : Option MeterKey) : Int :=
  if g.currentActive = scope then g.liveGas
  else
    match scope with
    | some k => (g.meters.lookup k).getD 0
    | none => g.hostBudget

/-- The scopes of a task: those of its root, of the running frame and of every meter. -/
def scopes : Finset (Option MeterKey) :=
  insert g.rootActive (insert g.currentActive (g.meters.entries.map fun e => some e.1).toFinset)

def total : Int := ∑ scope ∈ g.scopes, g.balance scope

variable {g g'}

theorem rootRemaining_eq_balance : g.rootRemaining = g.balance g.rootActive := rfl

theorem balance_currentActive : g.balance g.currentActive = g.liveGas := if_pos rfl

theorem balance_reconcile (newActive scope : Option MeterKey) :
    (g.reconcile newActive).balance scope = g.balance scope := by
  by_cases same : g.currentActive = newActive
  · -- The scope stays the running one.
    subst same
    rw [reconcile, if_pos rfl]
  · rw [reconcile, if_neg same]
    unfold balance
    by_cases loaded : newActive = scope
    · -- The loaded scope shows what was banked for it.
      subst loaded
      rw [if_neg same]
      cases active : g.currentActive with
      | none =>
        cases newActive with
        | none => exact absurd active same
        | some k => simp
      | some k =>
        cases newActive with
        | none => simp
        | some k' =>
          have other : k' ≠ k := fun eq => same (by rw [active, eq])
          simp [SortedMap.lookup_insert_ne _ _ other]
    · rw [if_neg loaded]
      by_cases banked : g.currentActive = scope
      · -- The banked scope keeps the live counter.
        rw [if_pos banked, ← banked]
        cases active : g.currentActive with
        | none => rfl
        | some k => simp
      · -- Nothing touches any other scope.
        rw [if_neg banked]
        cases active : g.currentActive with
        | none =>
          cases scope with
          | none => exact absurd active banked
          | some k => rfl
        | some k =>
          cases scope with
          | none => rfl
          | some k' =>
            have other : k' ≠ k := fun eq => banked (by rw [active, eq])
            simp [SortedMap.lookup_insert_ne _ _ other]

@[simp]
theorem currentActive_reconcile (newActive : Option MeterKey) :
    (g.reconcile newActive).currentActive = newActive := by
  unfold reconcile
  split <;> rfl

@[simp]
theorem rootActive_reconcile (newActive : Option MeterKey) :
    (g.reconcile newActive).rootActive = g.rootActive := by
  unfold reconcile
  split
  · rfl
  · cases g.currentActive <;> rfl

theorem liveGas_reconcile (newActive : Option MeterKey) :
    (g.reconcile newActive).liveGas = g.balance newActive := by
  rw [← balance_reconcile newActive, ← balance_currentActive, currentActive_reconcile]

/-- Only the running scope sees a change of the live counter. -/
theorem balance_withLiveGas (gas : Int) :
    balance { g with liveGas := gas } = Function.update g.balance g.currentActive gas := by
  funext scope
  by_cases here : scope = g.currentActive
  · rw [here, Function.update_self]
    exact if_pos rfl
  · rw [Function.update_of_ne here]
    unfold balance
    rw [if_neg (Ne.symm here), if_neg (Ne.symm here)]

theorem balance_withLiveGas_self (gas : Int) :
    balance { g with liveGas := gas } g.currentActive = gas := if_pos rfl

theorem balance_withLiveGas_ne {scope : Option MeterKey} (other : scope ≠ g.currentActive)
    (gas : Int) : balance { g with liveGas := gas } scope = g.balance scope := by
  rw [balance_withLiveGas, Function.update_of_ne other]

/-! ## Sums -/

theorem mem_scopes_of_lookup {k : MeterKey} {value : Int} (held : g.meters.lookup k = some value) :
    some k ∈ g.scopes := by
  have member := SortedMap.lookup_eq_some.mp held
  exact Finset.mem_insert_of_mem (Finset.mem_insert_of_mem
    (List.mem_toFinset.mpr (List.mem_map.mpr ⟨_, member, rfl⟩)))

theorem balance_eq_zero {k : MeterKey} (other : some k ∉ g.scopes) : g.balance (some k) = 0 := by
  have idle : g.currentActive ≠ some k := fun same => other (by simp [scopes, same])
  have absent : g.meters.lookup k = none := by
    by_contra held
    obtain ⟨value, held⟩ := Option.ne_none_iff_exists'.mp held
    exact other (mem_scopes_of_lookup held)
  rw [balance, if_neg idle]
  simp [absent]

theorem total_eq_sum {larger : Finset (Option MeterKey)} (inside : g.scopes ⊆ larger)
    (host : none ∈ larger → none ∈ g.scopes) : g.total = ∑ scope ∈ larger, g.balance scope := by
  refine Finset.sum_subset inside fun scope member other => ?_
  cases scope with
  | none => exact absurd (host member) other
  | some k => exact balance_eq_zero other

/-- A change of one balance changes the sum by the same amount. -/
theorem total_update {scope : Option MeterKey} {gas : Int}
    (balances : g'.balance = Function.update g.balance scope gas)
    (grown : g'.scopes = insert scope g.scopes) (host : scope = none → none ∈ g.scopes) :
    g'.total = g.total - g.balance scope + gas := by
  have member : scope ∈ g'.scopes := grown ▸ Finset.mem_insert_self ..
  -- Both sums run over the scopes after the change.
  have before : g.total = ∑ other ∈ g'.scopes, g.balance other := by
    refine total_eq_sum (grown ▸ Finset.subset_insert ..) fun isHost => ?_
    rw [grown] at isHost
    rcases Finset.mem_insert.mp isHost with same | old
    · exact host same.symm
    · exact old
  rw [before, total, balances, Finset.sum_update_of_mem member,
    Finset.sum_eq_add_sum_sdiff_singleton_of_mem member g.balance]
  ring

theorem total_withLiveGas (gas : Int) :
    total { g with liveGas := gas } = g.total - g.liveGas + gas := by
  rw [← balance_currentActive]
  refine total_update (balance_withLiveGas gas) ?_ fun same => ?_
  · exact (Finset.insert_eq_of_mem (by simp [scopes])).symm
  · simp [scopes, same]

/-- A task whose root has a meter never runs on the host's budget. -/
def Metered (g : TaskGasState MeterKey) (newActive : Option MeterKey) : Prop :=
  g.rootActive ≠ none → newActive ≠ none

theorem total_reconcile {newActive : Option MeterKey} (before : Metered g g.currentActive)
    (after : Metered g newActive) : (g.reconcile newActive).total = g.total := by
  have hosted : ∀ h : TaskGasState MeterKey, h.rootActive = g.rootActive →
      (none ∈ h.scopes ↔ g.rootActive = none ∨ h.currentActive = none) := by
    intro h root
    simp [scopes, root, eq_comm]
  have kept := rootActive_reconcile (g := g) newActive
  have none_iff : none ∈ (g.reconcile newActive).scopes ↔ none ∈ g.scopes := by
    rw [hosted _ kept, hosted g rfl, currentActive_reconcile]
    by_cases root : g.rootActive = none
    · simp [root]
    · simp [root, before root, after root]
  have left : (g.reconcile newActive).scopes ⊆ (g.reconcile newActive).scopes ∪ g.scopes :=
    Finset.subset_union_left
  have right : g.scopes ⊆ (g.reconcile newActive).scopes ∪ g.scopes := Finset.subset_union_right
  -- Both sums run over the scopes of both states.
  rw [total_eq_sum left fun member => (Finset.mem_union.mp member).elim id none_iff.mpr,
    total_eq_sum right fun member => (Finset.mem_union.mp member).elim none_iff.mp id]
  exact Finset.sum_congr rfl fun scope _ => balance_reconcile newActive scope

theorem total_new (rootActive : Option MeterKey) (initialGas : Int) :
    (TaskGasState.new rootActive initialGas).total = initialGas := by
  have only : (TaskGasState.new rootActive initialGas).scopes = {rootActive} := by
    cases rootActive with
    | none => rfl
    | some k => simp [scopes, new, SortedMap.insert, SortedMap.insertEntry, SortedMap.empty]
  rw [total, only, Finset.sum_singleton]
  exact if_pos rfl

/-! ## Setting a meter -/

def setMeter (g : TaskGasState MeterKey) (k : MeterKey) (gas : Int) : TaskGasState MeterKey :=
  if g.currentActive = some k then { g with liveGas := gas }
  else { g with meters := g.meters.insert k gas }

theorem balance_setMeter (k : MeterKey) (gas : Int) :
    (g.setMeter k gas).balance = Function.update g.balance (some k) gas := by
  unfold setMeter
  split
  next running =>
    -- The meter of the running scope is the live counter.
    rw [balance_withLiveGas, running]
  next banked =>
    funext scope
    unfold balance
    by_cases here : scope = some k
    · subst here
      rw [Function.update_self, if_neg banked]
      simp
    · rw [Function.update_of_ne here]
      -- The other banked values stay.
      cases scope with
      | none => rfl
      | some k' =>
        have other : k' ≠ k := fun same => here (by rw [same])
        simp [SortedMap.lookup_insert_ne _ _ other]

theorem balance_setMeter_self (k : MeterKey) (gas : Int) :
    (g.setMeter k gas).balance (some k) = gas := by
  rw [balance_setMeter, Function.update_self]

theorem balance_setMeter_ne {k : MeterKey} {scope : Option MeterKey} (other : scope ≠ some k)
    (gas : Int) : (g.setMeter k gas).balance scope = g.balance scope := by
  rw [balance_setMeter, Function.update_of_ne other]

theorem scopes_setMeter (k : MeterKey) (gas : Int) :
    (g.setMeter k gas).scopes = insert (some k) g.scopes := by
  unfold setMeter
  split
  next running =>
    rw [Finset.insert_eq_of_mem]
    · rfl
    · simp [scopes, running]
  next banked =>
    have keys : ((g.meters.insert k gas).entries.map fun e => some e.1).toFinset =
        insert (some k) (g.meters.entries.map fun e => some e.1).toFinset := by
      ext scope
      simp only [Finset.mem_insert, List.mem_toFinset, List.mem_map, SortedMap.insert,
        SortedMap.mem_insertEntry g.meters.sorted]
      constructor
      · rintro ⟨e, rfl | ⟨old, -⟩, rfl⟩
        · exact .inl rfl
        · exact .inr ⟨e, old, rfl⟩
      · rintro (rfl | ⟨e, old, rfl⟩)
        · exact ⟨(k, gas), .inl rfl, rfl⟩
        · -- An old meter keeps its entry, or it is the one that is set.
          by_cases same : e.1 = k
          · exact ⟨(k, gas), .inl rfl, by rw [same]⟩
          · exact ⟨e, .inr ⟨old, same⟩, rfl⟩
    simp only [scopes, keys]
    rw [Finset.insert_comm g.currentActive, Finset.insert_comm g.rootActive]

theorem total_setMeter (k : MeterKey) (gas : Int) :
    (g.setMeter k gas).total = g.total - g.balance (some k) + gas :=
  total_update (balance_setMeter k gas) (scopes_setMeter k gas) nofun

@[simp]
theorem rootActive_setMeter (k : MeterKey) (gas : Int) :
    (g.setMeter k gas).rootActive = g.rootActive := by
  unfold setMeter
  split <;> rfl

@[simp]
theorem currentActive_setMeter (k : MeterKey) (gas : Int) :
    (g.setMeter k gas).currentActive = g.currentActive := by
  unfold setMeter
  split <;> rfl

end

end TaskGasState

variable {Runtime : Type}

theorem setGasMeter_snd (f : KernelFrame Runtime) (g : TaskGasState Key) :
    (setGasMeter f g).2 = g.setMeter (Key.ofReg (f.inst.regs 8)) (f.inst.regs 9).toInt := by
  unfold setGasMeter TaskGasState.setMeter
  by_cases running : g.currentActive = some (Key.ofReg (f.inst.regs 8)) <;> simp [running]

/-! ## Charges and grants -/

section

variable (env : Env) (machine : KernelMachine Runtime)

/-- What native code took from the balance that it was entered with. -/
def nativeSpent (t : Task Runtime) (info : ExitInfo) : Int :=
  (topGas (javm env machine) t).liveGas - info.gasRemaining

def charged (s : Task Runtime) (info : ExitInfo) : Int := (payment env s info).getD 0

/-- The meter that a guest which can pay asks to set, with the balance for it. -/
def meterSet (s : Task Runtime) (info : ExitInfo) : Option (Key × Int) :=
  if (payment env s info).isSome ∧ info.op = opHostYield then
    match frameAt s.stack s.topIdx with
    | some (.ok f) =>
      match yieldKey env f with
      | some (.ok (some key)) =>
        if key = ykSetGasMeter then some (Key.ofReg (f.inst.regs 8), (f.inst.regs 9).toInt)
        else none
      | _ => none
    | _ => none
  else none

/-- The balance that the setting of a meter added. -/
def granted (s : Task Runtime) (info : ExitInfo) : Int :=
  match meterSet env s info with
  | some (key, gas) => gas - (charge s (charged env s info)).gas.balance (some key)
  | none => 0

variable {env machine} {s s' : Task Runtime} {info : ExitInfo}
  {rearmCow : Runtime → List Nat → Runtime} {cost : Int}

theorem meterSet_of_op (other : info.op ≠ opHostYield) : meterSet env s info = none :=
  if_neg fun both => other both.2

theorem meterSet_of_key {top : Entry Runtime} {f : KernelFrame Runtime} {key : Key}
    (pays : payment env s info = some cost) (asked : info.op = opHostYield)
    (last : s.stack.getLast? = some top) (held : frameOf s.stack top.target = some f)
    (named : yieldKey env f = pure (some key)) : meterSet env s info =
      if key = ykSetGasMeter then some (Key.ofReg (f.inst.regs 8), (f.inst.regs 9).toInt)
      else none := by
  unfold meterSet
  rw [if_pos ⟨by rw [pays]; rfl, asked⟩, frameAt_eq_pure.mpr ⟨top, found_top last, held⟩]
  change (match yieldKey env f with
    | some (.ok (some key)) => _
    | _ => none) = _
  rw [named]
  rfl

theorem Effect.gas (pays : payment env s info = some cost)
    (effect : Effect env rearmCow (charge s cost) info s') :
    s'.gas = match meterSet env s info with
      | some (key, gas) => (charge s cost).gas.setMeter key gas
      | none => (charge s cost).gas := by
  cases effect with
  | edited last held asked edit =>
    have none_ : meterSet env s info = none := by
      rcases asked with ⟨-, op⟩ | ⟨-, op⟩ | ⟨⟨-, op⟩, key, named, mints⟩
      · exact meterSet_of_op (by rw [op]; decide)
      · exact meterSet_of_op (by rw [op]; decide)
      · rw [meterSet_of_key pays op last held named, if_neg]
        rintro rfl
        revert mints
        decide
    rw [none_]
  | metered last held asked named =>
    rw [meterSet_of_key pays asked.2 last held named, if_pos rfl]
    exact setGasMeter_snd ..
  | @yielded top f key payload stack' last held asked named other read caught =>
    have notSet : key ≠ ykSetGasMeter := by
      rintro rfl
      exact other List.mem_cons_self
    rw [meterSet_of_key pays asked.2 last held named, if_neg notSet]
  | replied finishes last own returned =>
    rcases finishes with halts | ⟨-, op⟩
    · -- A clean exit is not a call.
      rcases isCall_of_payment pays with call | call <;> (rw [halts] at call; cases call)
    · rw [meterSet_of_op (by rw [op]; decide)]
  | unwound finishes last other returned =>
    rcases finishes with halts | ⟨-, op⟩
    · rcases isCall_of_payment pays with call | call <;> (rw [halts] at call; cases call)
    · rw [meterSet_of_op (by rw [op]; decide)]
  | resumed last other asked held under waiting lower =>
    rw [meterSet_of_op (by rw [asked.2]; decide)]
  | dropped last other asked => rw [meterSet_of_op (by rw [asked.2]; decide)]
  | called last held asked calls funded => rw [meterSet_of_op (by rw [asked.2]; decide)]

theorem Effect.gas_of_halt (reason : info.exitReason = exitHalt)
    (effect : Effect env rearmCow s info s') : s'.gas = s.gas := by
  have noCall : ∀ {op : Nat}, ¬ Asks info op := by
    rintro op ⟨call | call, -⟩ <;> (rw [reason] at call; cases call)
  cases effect with
  | metered last held asked named => exact absurd asked noCall
  | _ => rfl

theorem charge_zero (s : Task Runtime) : charge s 0 = s := by
  unfold charge
  rw [sub_zero]

/-- Which gas state the handling of an exit leaves: the charge is paid, and a meter may be set. -/
theorem Handled.gas (handled : Handled env rearmCow s info (.resume, s')) :
    s'.gas = match meterSet env s info with
      | some (key, gas) => (charge s (charged env s info)).gas.setMeter key gas
      | none => (charge s (charged env s info)).gas := by
  -- Without a payment there is neither a charge nor a meter to set.
  have free : payment env s info = none → s'.gas = s.gas → s'.gas = match meterSet env s info with
      | some (key, gas) => (charge s (charged env s info)).gas.setMeter key gas
      | none => (charge s (charged env s info)).gas := by
    intro unpaid same
    have none_ : meterSet env s info = none := if_neg fun both => by
      rw [unpaid] at both
      cases both.1
    rw [none_, charged, unpaid, Option.getD_none, charge_zero]
    exact same
  cases handled with
  | halted reason handles => exact free (payment_of_halt reason) (Effect.gas_of_halt reason handles)
  | paid pays nonneg handles =>
    rw [charged, pays, Option.getD_some]
    exact Effect.gas pays handles
  | unpaid why unpaid_ unpaid => exact free unpaid_ rfl

theorem Handled.done {outcome : LoopOutcome}
    (handled : Handled env rearmCow s info (.done outcome, s')) :
    s'.gas = (charge s (charged env s info)).gas ∧
      outcome.gasRemaining = s'.gas.rootRemaining := by
  cases handled with
  | halted reason handles =>
    rw [charged, payment_of_halt reason, Option.getD_none, charge_zero]
    exact ⟨handles.1, handles.2.trans (by rw [handles.1])⟩
  | paid pays nonneg handles =>
    rw [charged, pays, Option.getD_some]
    exact ⟨handles.1, handles.2.trans (by rw [handles.1])⟩
  | ended free remaining =>
    rw [charged, free, Option.getD_none, charge_zero]
    exact ⟨rfl, remaining⟩

theorem Handled.charged_nonneg {result : Flow × Task Runtime}
    (handled : Handled env rearmCow s info result) : 0 ≤ charged env s info := by
  cases handled with
  | halted reason handles => rw [charged, payment_of_halt reason]; rfl
  | paid pays nonneg handles => rw [charged, pays]; exact nonneg
  | unpaid why free unpaid => rw [charged, free]; rfl
  | ended free remaining => rw [charged, free]; rfl

end

/-! ## Runs -/

theorem closed_activeKey : FrameGas.Closed fun gas => gas.activeKey ≠ none where
  declared gas scope := by
    cases meters : gas.meters with
    | nil => exact absurd meters scope.meters
    | cons meter rest => simp [FrameGas.activeKey, scope.active, meters]
  advance gas gas' _ next := by
    unfold FrameGas.advance at next
    split at next
    · cases next
    · split at next
      next inside =>
        cases next
        simp [FrameGas.activeKey, inside]
      · cases next
  resetToPrimary gas active := by
    unfold FrameGas.resetToPrimary
    split
    · exact active
    next meters =>
      obtain ⟨meter, rest, same⟩ := List.exists_cons_of_ne_nil meters
      simp [FrameGas.activeKey, same]

section

variable (env : Env) (machine : KernelMachine Runtime)

/-- The runs of a task with its initial gas and the scope of its root, and what native code, charges
and set meters came to so far. -/
inductive GasRun (initialGas : Int) (root : Option Key) : Task Runtime → Int → Int → Int → Prop
  | start {lane : Nat} {hash : CapHash} {endpointIdx : BitVec 32} {args : Fin 4 → Word64}
      {t : Task Runtime} (started : newTask env lane hash endpointIdx args initialGas = pure t)
      (scope : root = activeMeter t.stack 0) : GasRun initialGas root t 0 0 0
  | step {t s t' : Task Runtime} {info : ExitInfo} {native charges grants : Int}
      (run : GasRun initialGas root t native charges grants)
      (ran : runTop (javm env machine) machine.toMachine t = pure (info, s))
      (handled : dispatchExit (javm env machine) s info = pure (.resume, t')) :
      GasRun initialGas root t' (native + nativeSpent env machine t info)
        (charges + charged env s info) (grants + granted env s info)

variable {env machine} {initialGas native charges grants : Int} {root : Option Key}
  {t s t' : Task Runtime} {info : ExitInfo}

theorem Reachable.gasRun (reached : Reachable env machine t) :
    ∃ initialGas root native charges grants,
      GasRun env machine initialGas root t native charges grants := by
  induction reached with
  | start started => exact ⟨_, _, _, _, _, .start started rfl⟩
  | step reached polled ih =>
    obtain ⟨initialGas, root, native, charges, grants, run⟩ := ih
    obtain ⟨info, s, ran, handled⟩ := pollOnce_eq_pure polled
    exact ⟨_, _, _, _, _, run.step ran handled⟩

/-- What every step keeps about the scopes of a task. -/
structure GasSound (root : Option Key) (t : Task Runtime) : Prop where
  sound : Task.Sound t
  rootActive : t.gas.rootActive = root
  /-- Below a metered root everything is metered. -/
  funded : root ≠ none → Funded (fun gas => gas.activeKey ≠ none) t.stack
  running : root ≠ none → t.gas.currentActive ≠ none

namespace GasSound

theorem activeMeter_ne_none (sound : GasSound root t) (metered : root ≠ none) {idx : Nat}
    (inside : idx < t.stack.length) : activeMeter t.stack idx ≠ none := by
  rw [activeMeter, List.getElem?_eq_getElem inside, Option.bind_some]
  exact (sound.funded metered).of_mem (List.getElem_mem inside)

theorem total_switch (sound : GasSound root t) {idx : Nat} (inside : idx < t.stack.length) :
    (t.gas.reconcile (activeMeter t.stack idx)).total = t.gas.total := by
  apply TaskGasState.total_reconcile
  · intro metered
    exact sound.running (sound.rootActive ▸ metered)
  · intro metered
    exact sound.activeMeter_ne_none (sound.rootActive ▸ metered) inside

theorem topIdx_lt (sound : GasSound root t) : t.topIdx < t.stack.length :=
  Nat.sub_lt sound.sound.integrity.length_pos Nat.one_pos

theorem gas_ranTop (ran : RanTop env machine t info s) :
    s.gas = { t.gas.reconcile (activeMeter t.stack t.topIdx) with liveGas := info.gasRemaining } := by
  cases ran with
  | mk last held table ran => rfl

theorem ranTop (sound : GasSound root t) (ran : RanTop env machine t info s) : GasSound root s := by
  refine ⟨sound.sound.ranTop ran, ?_, fun metered => (sound.funded metered).ranTop ran,
    fun metered => ?_⟩
  · rw [gas_ranTop ran]
    exact (TaskGasState.rootActive_reconcile _).trans sound.rootActive
  · rw [gas_ranTop ran]
    change (t.gas.reconcile _).currentActive ≠ none
    rw [TaskGasState.currentActive_reconcile]
    exact sound.activeMeter_ne_none metered sound.topIdx_lt

theorem total_ranTop (sound : GasSound root t) (ran : RanTop env machine t info s) :
    s.gas.total = t.gas.total - nativeSpent env machine t info := by
  rw [gas_ranTop ran, TaskGasState.total_withLiveGas, sound.total_switch sound.topIdx_lt]
  change t.gas.total - (topGas (javm env machine) t).liveGas + info.gasRemaining = _
  rw [nativeSpent]
  ring

theorem handled (sound : GasSound root s)
    (handled : Handled env machine.rearmCow s info (.resume, t')) : GasSound root t' := by
  have gas := handled.gas
  have same : t'.gas.rootActive = s.gas.rootActive ∧ t'.gas.currentActive = s.gas.currentActive := by
    rw [gas]
    split
    · rw [TaskGasState.rootActive_setMeter, TaskGasState.currentActive_setMeter]
      exact ⟨rfl, rfl⟩
    · exact ⟨rfl, rfl⟩
  refine ⟨⟨sound.sound.integrity.handled handled, sound.sound.short.handled closed_shortKeys handled⟩,
    same.1.trans sound.rootActive, fun metered => ?_, fun metered => ?_⟩
  · exact (sound.funded metered).handled closed_activeKey handled
  · rw [same.2]
    exact sound.running metered

end GasSound

theorem total_charge (s : Task Runtime) (cost : Int) :
    (charge s cost).gas.total = s.gas.total - cost := by
  unfold charge
  rw [TaskGasState.total_withLiveGas]
  ring

theorem total_handled (handled : Handled env machine.rearmCow s info (.resume, t')) :
    t'.gas.total = s.gas.total - charged env s info + granted env s info := by
  rw [handled.gas, granted]
  split
  · rw [TaskGasState.total_setMeter, total_charge]
    ring
  · rw [total_charge, add_zero]

theorem GasRun.gasSound (run : GasRun env machine initialGas root t native charges grants) :
    GasSound root t := by
  induction run with
  | start started scope =>
    have sound := (Reachable.start started : Reachable env machine _).sound
    obtain ⟨inst, f, gas, stored, built, declared, rfl⟩ := newTask_eq_pure started
    have here : root = gas.activeKey := scope
    refine ⟨sound, here.symm, fun metered metadata member => ?_, fun metered => ?_⟩
    · rw [List.mem_singleton.mp member]
      show gas.activeKey ≠ none
      rw [← here]
      exact metered
    · show gas.activeKey ≠ none
      rw [← here]
      exact metered
  | step run ran handled sound =>
    have sound' := sound.ranTop (runTop_eq_pure ran)
    exact sound'.handled (Ends.of_pure sound'.sound.steps handled)

theorem GasRun.total (run : GasRun env machine initialGas root t native charges grants) :
    t.gas.total = initialGas - native - charges + grants := by
  induction run with
  | start started scope =>
    obtain ⟨inst, f, gas, stored, built, declared, rfl⟩ := newTask_eq_pure started
    rw [TaskGasState.total_new]
    ring
  | step run ran handled ih =>
    have sound' := run.gasSound.ranTop (runTop_eq_pure ran)
    rw [total_handled (Ends.of_pure sound'.sound.steps handled),
      run.gasSound.total_ranTop (runTop_eq_pure ran), ih]
    ring

/-- Gas is conserved across scopes, along every run of a task. The sum of all balances is the initial
gas less what native code and charges took, plus what set meters added. Switching to the scope of
any entry changes no balance, and the entry is given the balance of its scope, whichever frames
share it. Native code and charges change the running scope only, and the reported gas is the balance
of the root scope. -/
theorem gas_conserved (run : GasRun env machine initialGas root t native charges grants) :
    t.gas.total = initialGas - native - charges + grants ∧
    (∀ idx < t.stack.length,
      (t.gas.reconcile (activeMeter t.stack idx)).total = t.gas.total ∧
      (∀ scope, (t.gas.reconcile (activeMeter t.stack idx)).balance scope = t.gas.balance scope) ∧
      (t.gas.reconcile (activeMeter t.stack idx)).liveGas =
        t.gas.balance (activeMeter t.stack idx)) ∧
    ∀ info s, runTop (javm env machine) machine.toMachine t = pure (info, s) →
      s.gas.total = t.gas.total - nativeSpent env machine t info ∧
      (∀ scope, s.gas.balance scope =
        if scope = activeMeter t.stack t.topIdx then info.gasRemaining else t.gas.balance scope) ∧
      ∀ flow t', dispatchExit (javm env machine) s info = pure (flow, t') →
        0 ≤ charged env s info ∧
        match flow with
        | .resume =>
          t'.gas.total = s.gas.total - charged env s info + granted env s info ∧
          ∀ scope, t'.gas.balance scope = match meterSet env s info with
            | some (key, gas) =>
              if scope = some key then gas
              else (charge s (charged env s info)).gas.balance scope
            | none => (charge s (charged env s info)).gas.balance scope
        | .done outcome =>
          t'.gas.total = s.gas.total - charged env s info ∧
          outcome.gasRemaining = t'.gas.balance root := by
  have sound := run.gasSound
  refine ⟨run.total, fun idx inside => ⟨sound.total_switch inside,
    TaskGasState.balance_reconcile _, TaskGasState.liveGas_reconcile _⟩, fun info s ran => ?_⟩
  have ranTop := runTop_eq_pure ran
  have sound' := sound.ranTop ranTop
  refine ⟨sound.total_ranTop ranTop, fun scope => ?_, fun flow t' handled => ?_⟩
  · have running : (t.gas.reconcile (activeMeter t.stack t.topIdx)).currentActive =
        activeMeter t.stack t.topIdx := TaskGasState.currentActive_reconcile _
    rw [GasSound.gas_ranTop ranTop]
    by_cases here : scope = activeMeter t.stack t.topIdx
    · rw [if_pos here, here]
      nth_rewrite 2 [← running]
      exact TaskGasState.balance_withLiveGas_self _
    · rw [if_neg here, TaskGasState.balance_withLiveGas_ne (by rwa [running]),
        TaskGasState.balance_reconcile]
  · have effect := Ends.of_pure sound'.sound.steps handled
    refine ⟨effect.charged_nonneg, ?_⟩
    cases flow with
    | resume =>
      refine ⟨total_handled effect, fun scope => ?_⟩
      rw [effect.gas]
      split
      next key gas set_ =>
        by_cases here : scope = some key
        · rw [if_pos here, here, TaskGasState.balance_setMeter_self]
        · rw [if_neg here, TaskGasState.balance_setMeter_ne here]
      · rfl
    | done outcome =>
      obtain ⟨gas, remaining⟩ := effect.done
      refine ⟨by rw [gas, total_charge], remaining.trans ?_⟩
      rw [TaskGasState.rootRemaining_eq_balance, gas]
      exact congrArg _ sound'.rootActive

end

/-! ## A run that switches scopes -/

/-- The store has a caller without a meter of its own, a sender of the key that sets meters, and a
callee that a meter funds. -/
def meteredEnv : Env :=
  { smallEnv (smallImage [] [⟨[4], hashOf 4⟩, ⟨[5], hashOf 2⟩]) with
    store := fun h =>
      if h = hashOf 2 then some (.inst { smallInstance with imageHash := hashOf 3 })
      else if h = hashOf 3 then
        some (.image { smallImage [] [⟨[7], hashOf 7⟩] with
          endpoints := [([0], ⟨100, 0, [], 0, fun _ => 0⟩)], gasSlots := [[7]] })
      else if h = hashOf 4 then (yieldSender labelHashes ykSetGasMeter).map .inst
      else if h = hashOf 7 then (gasHandle labelHashes [42]).map .inst
      else (smallEnv (smallImage [] [⟨[4], hashOf 4⟩, ⟨[5], hashOf 2⟩])).store h
    hashes := labelHashes }

/-- The caller sets the meter and calls; the callee replies. -/
def meteredMachine : KernelMachine Unit :=
  scriptMachine fun pc =>
    if pc = 0 then
      (opHostYield, fun i => if i = 7 then 4 else if i = 8 then 42 else if i = 9 then 5000 else 0)
    else if pc = 4 then (opHostCall, fun i => if i = 7 then 5 else 0)
    else (opReply, fun _ => 0)

/-- The scope of the gas that is live, that of the frame on top, and the balances of both scopes. -/
def scopesShown (t : Task Unit) : Option Key × Option Key × Int × Int :=
  (t.gas.currentActive, activeMeter t.stack t.topIdx, t.gas.balance none, t.gas.balance (some [42]))

theorem scopesShown_metered :
    (taskAfter meteredEnv meteredMachine zeroHash 100000 3).map scopesShown =
      some (some [42], none, 98200, 4900) := by
  decide +kernel

/-- After the reply the callee's scope is live still; the caller's is entered without a loss. -/
theorem gas_conserved_switches : ∃ (t : Task Unit) (initialGas : Int) (root : Option Key)
    (native charges grants : Int),
    GasRun meteredEnv meteredMachine initialGas root t native charges grants ∧
    scopesShown t = (some [42], none, 98200, 4900) ∧
    t.gas.total = initialGas - native - charges + grants ∧
    (t.gas.reconcile none).total = t.gas.total ∧ (t.gas.reconcile none).liveGas = 98200 := by
  obtain ⟨t, reached, shows⟩ := exists_reachable meteredEnv meteredMachine zeroHash 100000 3
    scopesShown scopesShown_metered
  obtain ⟨initialGas, root, native, charges, grants, run⟩ := reached.gasRun
  obtain ⟨-, caller, budget, -⟩ : _ ∧ _ ∧ _ ∧ _ := by
    simpa only [scopesShown, Prod.mk.injEq] using shows
  obtain ⟨total, switches, -⟩ := gas_conserved run
  obtain ⟨same, -, live⟩ := switches t.topIdx run.gasSound.topIdx_lt
  rw [caller] at same live
  exact ⟨t, initialGas, root, native, charges, grants, run, shows, total, same, live.trans budget⟩

end Jar.Kernel
