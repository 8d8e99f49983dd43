import Jar.Proofs.DivisionLowering

/-! Runs of straight-line code, and routines that compute one guest register. -/

namespace Jar.Recompiler

open X86 Lower

/-! ## Straight-line code -/

/-- Writing a register other than RSP, in normal form. -/
theorem setReg_mk {m : Machine} {r : Reg} {v : Word64} (ordinary : r ≠ .rsp) :
    m.setReg r v = ⟨Function.update m.regs r v, m.flags, m.stack, m.ctx, m.mem⟩ := by
  simp [Machine.setReg, ordinary]

/-- Execute instructions none of which leaves the sequence. -/
def execAll (env : Env) : List Instr → Machine → Option Machine
  | [], m => some m
  | i :: code, m =>
    match exec env m i with
    | .next m => execAll env code m
    | _ => none

/-- Running the items goes on behind them from another state, whatever comes next. -/
def Steps (env : Env) (items : List Item) (m m' : Machine) : Prop :=
  ∀ rest, run env (items ++ rest) m = run env rest m'

section

variable {env : Env} {m m' m'' : Machine}

@[simp]
theorem execAll_nil : execAll env [] m = some m := rfl

theorem execAll_cons {i : Instr} {code : List Instr} (next : exec env m i = .next m') :
    execAll env (i :: code) m = execAll env code m' := by
  simp only [execAll, next]

theorem execAll_append (left right : List Instr) :
    execAll env (left ++ right) m = (execAll env left m).bind (execAll env right) := by
  induction left generalizing m with
  | nil => rfl
  | cons i left ih =>
    simp only [List.cons_append, execAll]
    split
    · exact ih
    · rfl

theorem execAll_trans {left right : List Instr} (first : execAll env left m = some m')
    (second : execAll env right m' = some m'') : execAll env (left ++ right) m = some m'' := by
  rw [execAll_append, first, Option.bind_some, second]

/-- A move writes the register even where it emits nothing. -/
@[simp]
theorem execAll_movRR {dst src : Reg} (ordinary : dst ≠ .rsp) (code : List Instr) :
    execAll env (movRR dst src ++ code) m = execAll env code (m.setReg dst (m.regs src)) := by
  unfold movRR
  split
  · next same =>
    subst same
    simp [Machine.setReg_self ordinary]
  · rfl

@[simp]
theorem execAll_movRR_nil {dst src : Reg} (ordinary : dst ≠ .rsp) :
    execAll env (movRR dst src) m = some (m.setReg dst (m.regs src)) := by
  rw [← List.append_nil (movRR dst src), execAll_movRR ordinary]
  rfl

@[simp]
theorem execAll_movRi64 {dst : Reg} {imm : Word64} (code : List Instr) :
    execAll env (movRi64 dst imm :: code) m =
      execAll env code ({ m with flags := movFlags imm m.flags }.setReg dst imm) :=
  execAll_cons exec_movRi64

theorem Steps.nil : Steps env [] m m := fun _ => rfl

theorem Steps.append {left right : List Item} (first : Steps env left m m')
    (second : Steps env right m' m'') : Steps env (left ++ right) m m'' := by
  intro rest
  rw [List.append_assoc, first, second]

theorem steps_of_execAll {code : List Instr} (ran : execAll env code m = some m') :
    Steps env (code.map .ins) m m' := by
  intro rest
  induction code generalizing m with
  | nil =>
    cases ran
    rfl
  | cons i code ih =>
    rw [execAll] at ran
    split at ran
    · next next =>
      exact (run_ins next).trans (ih ran)
    · cases ran

end

/-! ## Labels in the table -/

def Item.newLabels : Item → Nat
  | .newLabel => 1
  | _ => 0

/-- The labels of an item are among the first `n`, of which it binds none of the first `base`. A
jump of the guest may also go to any other label of a table. -/
def Item.Placed (base table n : Nat) : Item → Prop
  | .bind l => base ≤ l ∧ n > l
  | .jmp l | .jcc _ l => n > l
  | .guest kind _ target _ => kind.label target < max n table
  | _ => True

def newLabels (items : List Item) : Nat := (items.map Item.newLabels).sum

/-- Every label has been handed out when an item refers to it. -/
def Fits (base table : Nat) : Nat → List Item → Prop
  | _, [] => True
  | n, item :: rest => item.Placed base table n ∧ Fits base table (n + item.newLabels) rest

section

variable {base table n : Nat}

theorem Item.Placed.mono {item : Item} (placed : item.Placed base table n) {n' : Nat} (more : n ≤ n') :
    item.Placed base table n' := by
  cases item with
  | bind l => exact ⟨placed.1, Nat.lt_of_lt_of_le placed.2 more⟩
  | jmp | jcc => exact Nat.lt_of_lt_of_le placed more
  | guest => exact Nat.lt_of_lt_of_le placed (max_le_max_right table more)
  | _ => trivial

@[simp]
theorem newLabels_nil : newLabels [] = 0 := rfl

@[simp]
theorem newLabels_cons (item : Item) (items : List Item) :
    newLabels (item :: items) = item.newLabels + newLabels items := rfl

@[simp]
theorem newLabels_append (left right : List Item) :
    newLabels (left ++ right) = newLabels left + newLabels right := by
  simp [newLabels]

theorem Fits.append {left right : List Item} (first : Fits base table n left)
    (second : Fits base table (n + newLabels left) right) : Fits base table n (left ++ right) := by
  induction left generalizing n with
  | nil => exact second
  | cons item left ih =>
    refine ⟨first.1, ih first.2 ?_⟩
    rwa [Nat.add_assoc]

/-- Items that hand out no labels fit as soon as each of them does. -/
theorem fits_of_forall {items : List Item}
    (placed : ∀ item ∈ items, item.newLabels = 0 ∧ item.Placed base table n) :
    newLabels items = 0 ∧ Fits base table n items := by
  induction items with
  | nil => exact ⟨rfl, trivial⟩
  | cons item items ih =>
    obtain ⟨none, here⟩ := placed item (by simp)
    obtain ⟨sum, rest⟩ := ih fun item member => placed item (by simp [member])
    exact ⟨by simp [none, sum], here, none.symm ▸ rest⟩

@[simp]
theorem newLabels_code (code : List Instr) : newLabels (code.map .ins) = 0 := by
  induction code with
  | nil => rfl
  | cons i code ih => simpa [Item.newLabels] using ih

@[simp]
theorem fits_code_append (code : List Instr) (items : List Item) :
    Fits base table n (code.map .ins ++ items) ↔ Fits base table n items := by
  induction code with
  | nil => rfl
  | cons i code ih => simpa [Fits, Item.Placed, Item.newLabels] using ih

@[simp]
theorem fits_code (code : List Instr) : Fits base table n (code.map .ins) := by
  rw [← List.append_nil (code.map _), fits_code_append]
  trivial

end

/-- What a routine appends to the items, with the labels that it hands out itself. -/
structure Appends (st st' : LowerState) (items : List Item) : Prop where
  appended : st'.items = st.items ++ items
  labels : st'.labelsLen = st.labelsLen + newLabels items
  fits : ∀ base table, base ≤ st.labelsLen → Fits base table st.labelsLen items

theorem Appends.code {st st' : LowerState} {code : List Instr}
    (appended : st'.items = st.items ++ code.map .ins) (labels : st'.labelsLen = st.labelsLen) :
    Appends st st' (code.map .ins) :=
  ⟨appended, by simp [labels], fun _ _ _ => fits_code code⟩

/-! ## Routines that compute a register -/

/-- The destination holds a value; beside it only the scratch register and the flags changed. -/
structure Writes (d : Reg) (v : Word64) (m m' : Machine) : Prop extends
    Keeps [d, scratch] m m' where
  value : m'.regs d = v

/-- A state that differs in the destination, the scratch register and the flags only. -/
theorem writes_mk {d : Reg} {v : Word64} {m : Machine} {regs : Reg → Word64} {flags : Flags}
    (other : ∀ r, r ≠ d → r ≠ scratch → regs r = m.regs r) (value : regs d = v) :
    Writes d v m ⟨regs, flags, m.stack, m.ctx, m.mem⟩ := by
  refine ⟨⟨fun r unlisted => ?_, rfl, rfl, rfl⟩, value⟩
  simp only [List.mem_cons, List.not_mem_nil, or_false, not_or] at unlisted
  exact other r unlisted.1 unlisted.2

theorem keeps_mk {clobbered : List Reg} {m : Machine} {regs : Reg → Word64} {flags : Flags}
    (other : ∀ r, r ∉ clobbered → regs r = m.regs r) :
    Keeps clobbered m ⟨regs, flags, m.stack, m.ctx, m.mem⟩ :=
  ⟨other, rfl, rfl, rfl⟩

theorem Keeps.mono {few many : List Reg} {m m' : Machine} (keeps : Keeps few m m')
    (subset : few ⊆ many) : Keeps many m m' :=
  ⟨fun r unlisted => keeps.regs r fun listed => unlisted (subset listed), keeps.stack, keeps.ctx,
    keeps.mem⟩

theorem Keeps.trans {clobbered : List Reg} {m m' m'' : Machine} (first : Keeps clobbered m m')
    (second : Keeps clobbered m' m'') : Keeps clobbered m m'' where
  regs r unlisted := (second.regs r unlisted).trans (first.regs r unlisted)
  stack := second.stack.trans first.stack
  ctx := second.ctx.trans first.ctx
  mem := second.mem.trans first.mem

theorem Writes.sets {rd : RegIdx} {slot : HostSlot} {v : Word64} {m m' : Machine}
    (writes : Writes (regMap slot) v m m') (mapped : rvSlot rd = some slot) :
    Sets rd v m m' := by
  have host := isHost_regMap slot
  have other : ∀ r, r ≠ regMap slot → r ≠ scratch → m'.regs r = m.regs r := by
    intro r different ordinary
    exact writes.regs r (by simp [different, ordinary])
  refine ⟨guestRegs_update mapped (fun r isHost => ?_) (by rw [writes.ctx]), ?_, ?_, writes.stack,
    writes.ctx, writes.mem⟩
  · split
    · next same =>
      rw [same]
      exact writes.value
    · next different => exact other r different isHost.1
  · exact other .rsp host.2.1.symm (by decide)
  · exact other gasReg host.2.2.symm (by decide)

theorem rvSlot_inj {x y : RegIdx} {slot : HostSlot} (first : rvSlot x = some slot)
    (second : rvSlot y = some slot) : x = y := by
  have all : ∀ x y : RegIdx, (rvSlot x).isSome → rvSlot x = rvSlot y → x = y := by
    decide +kernel
  exact all x y (by rw [first]; rfl) (first.trans second.symm)

@[simp]
theorem regRead_zero (regs : Regs) : regRead regs 0#5 = 0 := rfl

/-- What is known about the registers once a guest register is overwritten. -/
def forget (defs : HostSlot → RegDef) (rd : RegIdx) : HostSlot → RegDef :=
  match rvSlot rd with
  | some slot => setDef defs slot .unknown
  | none => defs

/-- A routine emits items that, from every state, go on behind them with a value in the destination
and nothing else of the guest changed. -/
def Computes (st : LowerState) (rd : RegIdx) (value : Regs → Word64) (body : Lower Unit) : Prop :=
  ∃ st' items, body st = some ((), st') ∧ Appends st st' items ∧
    st'.regDefs = forget st.regDefs rd ∧
    ∀ env m, ∃ m', Steps env items m m' ∧ Sets rd (value (guestRegs m)) m m'

theorem emit_bind_emit (a b : List Instr) : (do emit a; emit b) = emit (a ++ b) := by
  funext st
  simp

section

variable {st : LowerState} {rd : RegIdx} {value : Regs → Word64}

theorem computes_zero (value : Regs → Word64) : Computes st 0 value (pure ()) :=
  ⟨st, [].map .ins, rfl, .code (by simp) rfl, rfl, fun _ m => ⟨m, .nil, .zero _ m⟩⟩

/-- A routine whose body, beside emitting straight-line code, only changes the carry record. -/
theorem computes_of_code {slot : HostSlot} (mapped : rvSlot rd = some slot) {body : Lower Unit}
    (code : List Instr) (emits : ∃ cf, body st = some ((), { st with
      items := st.items ++ code.map .ins
      regDefs := setDef st.regDefs slot .unknown
      lastAddCf := cf }))
    (writes : ∀ env m, ∃ m', execAll env code m = some m' ∧
      Writes (regMap slot) (value (guestRegs m)) m m') : Computes st rd value body := by
  obtain ⟨cf, emitted⟩ := emits
  refine ⟨_, _, emitted, .code rfl rfl, by simp only [forget, mapped], fun env m => ?_⟩
  obtain ⟨m', ran, written⟩ := writes env m
  exact ⟨m', steps_of_execAll ran, written.sets mapped⟩

/-- A routine of the common shape whose body emits straight-line code. -/
theorem computes_routine (operand : IsOperand rd) {sources : List RegIdx}
    (ordinary : ∀ rs ∈ sources, regIsReserved rs = false) {pc : Nat} {body : Reg → Lower Unit}
    (code : Reg → List Instr) (emits : ∀ d, body d = emit (code d))
    (writes : ∀ d, IsHost d → ∀ env m, ∃ m', execAll env (code d) m = some m' ∧
      Writes d (value (guestRegs m)) m m') :
    Computes st rd value (rvRoutine rd sources pc body) := by
  rcases operand with rfl | mapped
  · exact computes_zero value
  · obtain ⟨slot, mapped⟩ := Option.isSome_iff_exists.mp mapped
    rw [rvRoutine_mapped mapped ordinary, emits]
    have emitted : (do emit (code (regMap slot)); invalidateReg slot : Lower Unit) st =
        some ((), { st with
          items := st.items ++ (code (regMap slot)).map .ins
          regDefs := setDef st.regDefs slot .unknown
          lastAddCf := st.lastAddCf }) := by
      simp
    exact computes_of_code mapped _ ⟨_, emitted⟩ (writes _ (isHost_regMap slot))

end

end Jar.Recompiler
