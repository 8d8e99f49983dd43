import Jar.Proofs.GasSafety

/-! A run that stops for lack of gas can be continued as if it had never stopped. -/

namespace Jar

variable {Host : Type} {prog : Program} {handler : EcallHandler Host}

/-! ## How executions end -/

theorem endsIn_next {idx : prog.Idx} {s : ExecState Host} {final : Outcome prog.Idx Host} :
    EndsIn prog handler (.next idx s) final ↔
      EndsIn prog handler (step prog handler idx s) final := by
  constructor
  · rintro ⟨ended, fuel, ran⟩
    cases fuel with
    | zero =>
      rw [← ran] at ended
      cases ended
    | succ fuel => exact ⟨ended, fuel, ran⟩
  · rintro ⟨ended, fuel, ran⟩
    exact ⟨ended, fuel + 1, ran⟩

theorem endsIn_final {o final : Outcome prog.Idx Host} (ended : o.isFinal = true) :
    EndsIn prog handler o final ↔ o = final := by
  have stays (fuel : Nat) : follow prog handler fuel o = o := by
    cases o with
    | next => cases ended
    | exit | abort => cases fuel <;> rfl
  constructor
  · rintro ⟨-, fuel, ran⟩
    exact (stays fuel).symm.trans ran
  · rintro rfl
    exact ⟨ended, 0, stays 0⟩

/-- The configurations from one on. -/
abbrev configsFrom (prog : Program) (handler : EcallHandler Host) (n : Nat)
    (c : Config prog Host) : Option (Config prog Host) :=
  Transition.runFor (fun c => (step prog handler c.1 c.2).config?) n c

theorem endsIn_configsFrom {n : Nat} {c c' : Config prog Host}
    (reached : configsFrom prog handler n c = some c') (final : Outcome prog.Idx Host) :
    EndsIn prog handler (.next c.1 c.2) final ↔ EndsIn prog handler (.next c'.1 c'.2) final := by
  induction n generalizing c' with
  | zero =>
    cases reached
    rfl
  | succ n ih =>
    obtain ⟨mid, before, stepped⟩ := Transition.runFor_succ_eq_some.mp reached
    rw [ih before, endsIn_next, Outcome.config?_eq_some stepped]

theorem last_step {c : Config prog Host} {final : Outcome prog.Idx Host}
    (ends : EndsIn prog handler (.next c.1 c.2) final) :
    ∃ n c', configsFrom prog handler n c = some c' ∧ step prog handler c'.1 c'.2 = final := by
  obtain ⟨ended, fuel, ran⟩ := ends
  induction fuel generalizing c with
  | zero =>
    rw [← ran] at ended
    cases ended
  | succ fuel ih =>
    rw [follow] at ran
    cases outcome : step prog handler c.1 c.2 with
    | next idx s =>
      rw [outcome] at ran
      obtain ⟨n, c', reached, last⟩ := @ih (idx, s) ran
      refine ⟨n + 1, c', ?_, last⟩
      rw [configsFrom, Transition.runFor_succ_eq, outcome]
      exact reached
    | exit | abort =>
      rw [outcome] at ran
      refine ⟨0, c, rfl, ?_⟩
      rw [outcome, ← ran]
      cases fuel <;> rfl

/-! ## Environment calls -/

/-- What the answer of a handler leads to. -/
def ecallOutcome (idx : prog.Idx) (gas : Nat)
    (answer : EcallResult × Regs × Nat × CopyingMemory × Host) : Outcome prog.Idx Host :=
  let s : ExecState Host := ⟨answer.2.1, answer.2.2.1, gas, answer.2.2.2.1, answer.2.2.2.2⟩
  match answer.1 with
  | .resume =>
    match findIdxForPc prog.predecode.insts (prog.fetch idx).nextPc with
    | some i => .next i s
    | none => .exit .panic s
  | .exit reason => .exit reason s

theorem execEcall_of_paid {idx : prog.Idx} {s : ExecState Host} {kind : EcallKind} {cost : Nat}
    (enough : cost ≤ s.gas) :
    execEcall prog handler idx s kind cost = ecallOutcome idx (s.gas - cost)
      (handler kind s.gpr (prog.fetch idx).nextPc s.mem s.host) := by
  simp only [execEcall, Nat.not_lt.mpr enough, if_false, ExecState.charge, enough, if_true]
  rfl

theorem execEcall_of_unpaid {idx : prog.Idx} {s : ExecState Host} {kind : EcallKind} {cost : Nat}
    (short : ¬ cost ≤ s.gas) :
    execEcall prog handler idx s kind cost =
      .exit .outOfGas { s with pc := (prog.fetch idx).pc } := by
  simp only [execEcall, Nat.lt_of_not_le short, if_true]

/-! ## Gates -/

/-- An instruction at which the balance is checked before it is executed. -/
def Gated (idx : prog.Idx) : Prop :=
  (prog.fetch idx).isGasBlockStart = true ∧ prog.predecode.blockCosts idx ≠ 0

section

variable {idx : prog.Idx} {s : ExecState Host}

theorem step_of_refused (gated : Gated idx)
    (short : s.gas < prog.predecode.blockCosts idx + prog.predecode.blockReserves idx) :
    step prog handler idx s = .exit .outOfGas { s with pc := (prog.fetch idx).pc } := by
  unfold Gated at gated
  simp only [step, gate, gated, short, if_true, and_self, ne_eq, not_false_eq_true]

theorem step_of_entered (gated : Gated idx)
    (enough : ¬ s.gas < prog.predecode.blockCosts idx + prog.predecode.blockReserves idx) :
    step prog handler idx s =
      execInst prog handler idx { s with gas := s.gas - prog.predecode.blockCosts idx } := by
  have covered : prog.predecode.blockCosts idx ≤ s.gas := by omega
  unfold Gated at gated
  simp only [step, gate, gated, enough, covered, ExecState.charge, if_true, if_false, and_self,
    ne_eq, not_false_eq_true]

theorem step_of_ungated (ungated : ¬ Gated idx) :
    step prog handler idx s = execInst prog handler idx s := by
  unfold Gated at ungated
  simp only [step, gate, ungated, if_false]

end

/-! ## The recorded offset -/

/-- Two outcomes differ at most in the offset recorded in a state that goes on. -/
def SamePoint : Outcome prog.Idx Host → Outcome prog.Idx Host → Prop
  | .next idx s, .next idx' s' => idx' = idx ∧ s' = { s with pc := s'.pc }
  | .exit reason s, .exit reason' s' => reason' = reason ∧ s' = s
  | .abort, .abort => True
  | _, _ => False

theorem SamePoint.refl (o : Outcome prog.Idx Host) : SamePoint o o := by
  cases o <;> simp [SamePoint]

section

variable (idx : prog.Idx) (s : ExecState Host) (pc : Nat)

theorem samePoint_advance : SamePoint (advance prog idx s) (advance prog idx { s with pc }) := by
  unfold advance
  split
  · exact ⟨rfl, rfl⟩
  · exact ⟨rfl, rfl⟩

theorem samePoint_jumpTo (target : BitVec 32) :
    SamePoint (jumpTo prog idx s target) (jumpTo prog idx { s with pc } target) := by
  unfold jumpTo
  simp only
  split
  · split <;> exact ⟨rfl, rfl⟩
  · exact ⟨rfl, rfl⟩

theorem samePoint_execLoad (op : LoadOp) (rd rs1 : RegIdx) (imm : BitVec 32) :
    SamePoint (execLoad prog idx s op rd rs1 imm)
      (execLoad prog idx { s with pc } op rd rs1 imm) := by
  unfold execLoad ExecState.charge
  simp only
  cases s.mem.touch (computeAddr s.gpr rs1 imm) op.width false with
  | none => exact ⟨rfl, rfl⟩
  | some touched =>
    obtain ⟨mem, total⟩ := touched
    by_cases paid : total ≤ s.gas
    · simp only [paid, if_true]
      cases loadValue prog mem (computeAddr s.gpr rs1 imm) op.width with
      | none => exact ⟨rfl, rfl⟩
      | some value => exact samePoint_advance idx _ pc
    · simp only [paid, if_false]
      trivial

theorem samePoint_execStore (op : StoreOp) (rs1 rs2 : RegIdx) (imm : BitVec 32) :
    SamePoint (execStore prog idx s op rs1 rs2 imm)
      (execStore prog idx { s with pc } op rs1 rs2 imm) := by
  unfold execStore ExecState.charge
  simp only
  cases s.mem.touch (computeAddr s.gpr rs1 imm) op.width true with
  | none => exact ⟨rfl, rfl⟩
  | some touched =>
    obtain ⟨mem, total⟩ := touched
    by_cases paid : total ≤ s.gas
    · simp only [paid, if_true]
      cases storeWritable mem (computeAddr s.gpr rs1 imm) op.width with
      | false => exact ⟨rfl, rfl⟩
      | true =>
        simp only [if_true]
        cases mem.writeLe (computeAddr s.gpr rs1 imm) op.width (regRead s.gpr rs2) with
        | none => exact ⟨rfl, rfl⟩
        | some mem => exact samePoint_advance idx _ pc
    · simp only [paid, if_false]
      trivial

/-- An environment call tells its handler the offset behind it, not the recorded one. -/
theorem samePoint_execEcall (kind : EcallKind) (cost : Nat) :
    SamePoint (execEcall prog handler idx s kind cost)
      (execEcall prog handler idx { s with pc } kind cost) := by
  by_cases enough : cost ≤ s.gas
  · rw [execEcall_of_paid enough, execEcall_of_paid (s := { s with pc }) enough]
    exact .refl _
  · rw [execEcall_of_unpaid enough, execEcall_of_unpaid (s := { s with pc }) enough]
    exact ⟨rfl, rfl⟩

theorem samePoint_execInst :
    SamePoint (execInst prog handler idx s) (execInst prog handler idx { s with pc }) := by
  unfold execInst
  simp only
  cases (prog.fetch idx).inst with
  | load op rd rs1 imm => exact samePoint_execLoad idx s pc op rd rs1 imm
  | store op rs1 rs2 imm => exact samePoint_execStore idx s pc op rs1 rs2 imm
  | jal rd imm => exact samePoint_jumpTo idx { s with gpr := _ } pc _
  | jalr rd rs1 imm => exact samePoint_jumpTo idx { s with gpr := _ } pc _
  | branch op rs1 rs2 imm =>
    simp only
    split
    · exact samePoint_jumpTo idx s pc _
    · exact samePoint_advance idx s pc
  | ecallJar | ecalli imm => exact samePoint_execEcall idx s pc _ _
  | trap | reserved => exact ⟨rfl, rfl⟩
  | fence | fenceI | fallthrough => exact samePoint_advance idx s pc
  | _ => exact samePoint_advance idx { s with gpr := _ } pc

theorem samePoint_step :
    SamePoint (step prog handler idx s) (step prog handler idx { s with pc }) := by
  by_cases gated : Gated idx
  · by_cases short : s.gas < prog.predecode.blockCosts idx + prog.predecode.blockReserves idx
    · rw [step_of_refused gated short, step_of_refused (s := { s with pc }) gated short]
      exact ⟨rfl, rfl⟩
    · rw [step_of_entered gated short, step_of_entered (s := { s with pc }) gated short]
      exact samePoint_execInst idx { s with gas := _ } pc
  · rw [step_of_ungated gated, step_of_ungated gated]
    exact samePoint_execInst idx s pc

end

theorem SamePoint.of_final {o o' : Outcome prog.Idx Host} (same : SamePoint o o')
    (ended : o.isFinal = true) : EndsIn prog handler o' o := by
  rw [endsIn_final]
  · cases o <;> cases o' <;> simp_all [SamePoint, Outcome.isFinal]
  · cases o <;> cases o' <;> simp_all [SamePoint, Outcome.isFinal]

/-- Executions from points that differ only in the recorded offset end in the same way. -/
theorem EndsIn.of_samePoint {o o' final : Outcome prog.Idx Host} (same : SamePoint o o')
    (ends : EndsIn prog handler o final) : EndsIn prog handler o' final := by
  obtain ⟨ended, fuel, ran⟩ := ends
  induction fuel generalizing o o' with
  | zero =>
    obtain rfl : o = final := by cases o <;> exact ran
    exact same.of_final ended
  | succ fuel ih =>
    cases o with
    | exit reason s =>
      obtain rfl : Outcome.exit reason s = final := ran
      exact same.of_final ended
    | abort =>
      obtain rfl : Outcome.abort = final := ran
      exact same.of_final ended
    | next idx s =>
      cases o' with
      | exit | abort => cases same
      | next idx' s' =>
        obtain ⟨rfl, moved⟩ := same
        rw [moved, endsIn_next]
        exact ih (samePoint_step idx' s s'.pc) ran

/-! ## More gas -/

def Outcome.topUp (more : Nat) : Outcome prog.Idx Host → Outcome prog.Idx Host
  | .next idx s => .next idx (s.topUp more)
  | .exit reason s => .exit reason (s.topUp more)
  | .abort => .abort

def Paid : Outcome prog.Idx Host → Prop
  | .next .. => True
  | .exit reason _ => reason ≠ .outOfGas
  | .abort => False

section

variable {idx : prog.Idx} {s : ExecState Host} (more : Nat)

theorem advance_topUp : advance prog idx (s.topUp more) = (advance prog idx s).topUp more := by
  unfold advance
  split <;> rfl

theorem jumpTo_topUp (target : BitVec 32) :
    jumpTo prog idx (s.topUp more) target = (jumpTo prog idx s target).topUp more := by
  unfold jumpTo
  simp only
  split
  · split <;> rfl
  · rfl

theorem charge_topUp {cost : Nat} {s' : ExecState Host} (charged : s.charge cost = some s') :
    (s.topUp more).charge cost = some (s'.topUp more) := by
  unfold ExecState.charge at charged ⊢
  split at charged
  · next covered =>
    cases charged
    simp only [ExecState.topUp, Nat.le_add_right_of_le covered, if_true, Nat.sub_add_comm covered]
  · cases charged

theorem execLoad_topUp {op : LoadOp} {rd rs1 : RegIdx} {imm : BitVec 32}
    (paid : Paid (execLoad prog idx s op rd rs1 imm)) :
    execLoad prog idx (s.topUp more) op rd rs1 imm =
      (execLoad prog idx s op rd rs1 imm).topUp more := by
  unfold execLoad at paid ⊢
  simp only [ExecState.topUp] at paid ⊢
  cases touched : s.mem.touch (computeAddr s.gpr rs1 imm) op.width false with
  | none => rfl
  | some result =>
    obtain ⟨mem, total⟩ := result
    rw [touched] at paid
    cases charged : { s with mem }.charge total with
    | none =>
      simp only [charged] at paid
      cases paid
    | some s' =>
      have also := charge_topUp more charged
      simp only [ExecState.topUp] at also
      simp only [also, charged]
      cases loadValue prog s'.mem (computeAddr s.gpr rs1 imm) op.width with
      | none => rfl
      | some value => exact advance_topUp (s := { s' with gpr := _ }) more

theorem execStore_topUp {op : StoreOp} {rs1 rs2 : RegIdx} {imm : BitVec 32}
    (paid : Paid (execStore prog idx s op rs1 rs2 imm)) :
    execStore prog idx (s.topUp more) op rs1 rs2 imm =
      (execStore prog idx s op rs1 rs2 imm).topUp more := by
  unfold execStore at paid ⊢
  simp only [ExecState.topUp] at paid ⊢
  cases touched : s.mem.touch (computeAddr s.gpr rs1 imm) op.width true with
  | none => rfl
  | some result =>
    obtain ⟨mem, total⟩ := result
    rw [touched] at paid
    cases charged : { s with mem }.charge total with
    | none =>
      simp only [charged] at paid
      cases paid
    | some s' =>
      have also := charge_topUp more charged
      simp only [ExecState.topUp] at also
      simp only [also, charged]
      by_cases writable : storeWritable s'.mem (computeAddr s.gpr rs1 imm) op.width = true
      · simp only [writable, if_true]
        cases s'.mem.writeLe (computeAddr s.gpr rs1 imm) op.width (regRead s'.gpr rs2) with
        | none => rfl
        | some mem => exact advance_topUp (s := { s' with mem }) more
      · simp only [writable]
        rfl

theorem execEcall_topUp {kind : EcallKind} {cost : Nat}
    (paid : Paid (execEcall prog handler idx s kind cost)) :
    execEcall prog handler idx (s.topUp more) kind cost =
      (execEcall prog handler idx s kind cost).topUp more := by
  by_cases covered : cost ≤ s.gas
  · have still : cost ≤ (s.topUp more).gas := Nat.le_add_right_of_le covered
    rw [execEcall_of_paid covered, execEcall_of_paid still]
    simp only [ExecState.topUp, Nat.sub_add_comm covered, ecallOutcome]
    cases (handler kind s.gpr (prog.fetch idx).nextPc s.mem s.host).1 with
    | resume => cases findIdxForPc prog.predecode.insts (prog.fetch idx).nextPc <;> rfl
    | exit reason => rfl
  · rw [execEcall_of_unpaid covered] at paid
    exact absurd rfl paid

theorem execInst_topUp (paid : Paid (execInst prog handler idx s)) :
    execInst prog handler idx (s.topUp more) = (execInst prog handler idx s).topUp more := by
  unfold execInst at paid ⊢
  simp only at paid ⊢
  cases shape : (prog.fetch idx).inst with
  | load op rd rs1 imm =>
    rw [shape] at paid
    exact execLoad_topUp more paid
  | store op rs1 rs2 imm =>
    rw [shape] at paid
    exact execStore_topUp more paid
  | jal rd imm => exact jumpTo_topUp (s := { s with gpr := _ }) more _
  | jalr rd rs1 imm => exact jumpTo_topUp (s := { s with gpr := _ }) more _
  | branch op rs1 rs2 imm =>
    simp only [show (s.topUp more).gpr = s.gpr from rfl]
    split
    · exact jumpTo_topUp more _
    · exact advance_topUp more
  | ecallJar =>
    rw [shape] at paid
    exact execEcall_topUp more paid
  | ecalli imm =>
    rw [shape] at paid
    exact execEcall_topUp more paid
  | trap | reserved => rfl
  | fence | fenceI | fallthrough => exact advance_topUp more
  | _ => exact advance_topUp (s := { s with gpr := _ }) more

theorem step_topUp (paid : Paid (step prog handler idx s)) :
    step prog handler idx (s.topUp more) = (step prog handler idx s).topUp more := by
  by_cases gated : Gated idx
  · by_cases short : s.gas < prog.predecode.blockCosts idx + prog.predecode.blockReserves idx
    · rw [step_of_refused gated short] at paid
      exact absurd rfl paid
    · have still : ¬ (s.topUp more).gas <
          prog.predecode.blockCosts idx + prog.predecode.blockReserves idx := by
        simp only [ExecState.topUp]
        omega
      rw [step_of_entered gated short] at paid ⊢
      rw [step_of_entered gated still, ← execInst_topUp more paid]
      simp only [ExecState.topUp]
      rw [Nat.sub_add_comm (by omega)]
  · rw [step_of_ungated gated] at paid ⊢
    rw [step_of_ungated gated, execInst_topUp more paid]

end

/-- A run passes the same points with more gas. -/
theorem configsFrom_topUp {n : Nat} {c c' : Config prog Host}
    (reached : configsFrom prog handler n c = some c') (more : Nat) :
    configsFrom prog handler n (c.1, c.2.topUp more) = some (c'.1, c'.2.topUp more) := by
  induction n generalizing c' with
  | zero =>
    cases reached
    rfl
  | succ n ih =>
    obtain ⟨mid, before, stepped⟩ := Transition.runFor_succ_eq_some.mp reached
    have next := Outcome.config?_eq_some stepped
    have paid : Paid (step prog handler mid.1 mid.2) := by
      rw [next]
      trivial
    have also := step_topUp more paid
    refine Transition.runFor_succ_eq_some.mpr ⟨_, ih before, ?_⟩
    simp only [also, next]
    rfl

/-! ## Pauses -/

/-- The environment call that an instruction makes. -/
def ecallKind? : Inst → Option EcallKind
  | .ecallJar => some .ecall
  | .ecalli imm => some (.ecalli imm)
  | _ => none

/-- The handler of an environment call at a point answers that the run is out of gas. -/
def AnsweredOutOfGas (handler : EcallHandler Host) (c : Config prog Host) : Prop :=
  ∃ kind, ecallKind? (prog.fetch c.1).inst = some kind ∧
    (handler kind c.2.gpr (prog.fetch c.1).nextPc c.2.mem c.2.host).1 = .exit .outOfGas

section

variable {idx : prog.Idx} {s s' : ExecState Host}

theorem advance_ne_outOfGas : advance prog idx s ≠ .exit .outOfGas s' := by
  unfold advance
  split <;> simp

theorem jumpTo_ne_outOfGas {target : BitVec 32} : jumpTo prog idx s target ≠ .exit .outOfGas s' := by
  unfold jumpTo
  simp only
  split
  · split <;> simp
  · simp

theorem execLoad_ne_outOfGas {op : LoadOp} {rd rs1 : RegIdx} {imm : BitVec 32} :
    execLoad prog idx s op rd rs1 imm ≠ .exit .outOfGas s' := by
  unfold execLoad
  simp only
  split
  · simp [pageFault]
  · split
    · simp
    · split
      · exact advance_ne_outOfGas
      · simp [pageFault]

theorem execStore_ne_outOfGas {op : StoreOp} {rs1 rs2 : RegIdx} {imm : BitVec 32} :
    execStore prog idx s op rs1 rs2 imm ≠ .exit .outOfGas s' := by
  unfold execStore
  simp only
  split
  · simp [pageFault]
  · split
    · simp
    · split
      · split
        · exact advance_ne_outOfGas
        · simp [pageFault]
      · simp [pageFault]

/-- An environment call is out of gas before it has an effect, or by the answer to it. -/
theorem execEcall_outOfGas {kind : EcallKind} {cost : Nat}
    (exited : execEcall prog handler idx s kind cost = .exit .outOfGas s') :
    s' = { s with pc := (prog.fetch idx).pc } ∨
      (handler kind s.gpr (prog.fetch idx).nextPc s.mem s.host).1 = .exit .outOfGas := by
  by_cases covered : cost ≤ s.gas
  · rw [execEcall_of_paid covered] at exited
    right
    unfold ecallOutcome at exited
    simp only at exited
    split at exited
    · split at exited <;> simp at exited
    · next answered =>
      rw [answered]
      cases exited
      rfl
  · rw [execEcall_of_unpaid covered] at exited
    cases exited
    exact .inl rfl

/-- Only environment calls run out of gas behind the gate. -/
theorem execInst_outOfGas (exited : execInst prog handler idx s = .exit .outOfGas s') :
    isEcallBlock (prog.fetch idx).inst = true ∧
      (s' = { s with pc := (prog.fetch idx).pc } ∨ AnsweredOutOfGas handler (idx, s)) := by
  unfold execInst at exited
  simp only at exited
  cases shape : (prog.fetch idx).inst with
  | load => exact absurd (shape ▸ exited) execLoad_ne_outOfGas
  | store => exact absurd (shape ▸ exited) execStore_ne_outOfGas
  | jal | jalr => exact absurd (shape ▸ exited) jumpTo_ne_outOfGas
  | branch op rs1 rs2 imm =>
    simp only [shape] at exited
    split at exited
    · exact absurd exited jumpTo_ne_outOfGas
    · exact absurd exited advance_ne_outOfGas
  | ecallJar =>
    simp only [shape] at exited
    refine ⟨rfl, (execEcall_outOfGas exited).imp_right fun answered => ?_⟩
    exact ⟨.ecall, by simp only [shape]; rfl, answered⟩
  | ecalli imm =>
    simp only [shape] at exited
    refine ⟨rfl, (execEcall_outOfGas exited).imp_right fun answered => ?_⟩
    exact ⟨.ecalli imm, by simp only [shape]; rfl, answered⟩
  | trap | reserved => simp [shape] at exited
  | _ => exact absurd (shape ▸ exited) advance_ne_outOfGas

/-- A step that is out of gas stands at a block start and has had no effect, unless a handler
answered so. -/
theorem step_outOfGas (predecoded : Predecoded prog)
    (exited : step prog handler idx s = .exit .outOfGas s') :
    AnsweredOutOfGas handler (idx, s) ∨
      (prog.fetch idx).isGasBlockStart = true ∧ s' = { s with pc := (prog.fetch idx).pc } := by
  by_cases gated : Gated idx
  · by_cases short : s.gas < prog.predecode.blockCosts idx + prog.predecode.blockReserves idx
    · rw [step_of_refused gated short] at exited
      cases exited
      exact .inr ⟨gated.1, rfl⟩
    · rw [step_of_entered gated short] at exited
      have called := (execInst_outOfGas exited).1
      exact absurd (predecoded.no_static_cost (.inr called)) gated.2
  · rw [step_of_ungated gated] at exited
    obtain ⟨called, paused | answered⟩ := execInst_outOfGas exited
    · exact .inr ⟨predecoded.marked.ecallStart _ (List.get_mem _ _) called, paused⟩
    · exact .inl answered

end

/-! ## Resuming -/

theorem enter_topUp (s : ExecState Host) (more : Nat) :
    enter prog (s.topUp more) = (enter prog s).topUp more := by
  unfold enter
  simp only [ExecState.topUp]
  split
  · split <;> rfl
  · rfl

theorem enter_eq_next_of_outOfGas {s s1 : ExecState Host}
    (paused : Finishes prog handler s (.exit .outOfGas s1)) : ∃ idx, enter prog s = .next idx s := by
  unfold Finishes at paused
  unfold enter at paused ⊢
  split at paused
  · next i found =>
    split at paused
    · next started => exact ⟨i, if_pos started⟩
    · have := (endsIn_final rfl).mp paused
      cases this
  · have := (endsIn_final rfl).mp paused
    cases this

theorem enter_of_blockStart (predecoded : Predecoded prog) {idx : prog.Idx} {s : ExecState Host}
    (small : (prog.fetch idx).pc < 2 ^ 32) (started : (prog.fetch idx).isGasBlockStart = true) :
    enter prog { s with pc := (prog.fetch idx).pc } =
      .next idx { s with pc := (prog.fetch idx).pc } := by
  have found : findIdxForPc prog.predecode.insts (prog.fetch idx).pc = some idx :=
    predecoded.marked.findIdxForPc_eq idx
  simp only [enter, Nat.mod_eq_of_lt small, found, started, if_true]

/-- A run that ends out of gas stops at the start of a block, with the state in which it reached
that block, and goes on from there with more gas as if it had had that gas from the start. The
other possibility is that a handler answered an environment call with this reason. -/
theorem outOfGas_pause_resumes (code : List Byte) (codeBase : BitVec 32) (memCycles : Nat)
    (small : code.length ≤ 2 ^ 32) (handler : EcallHandler Host) (s s1 : ExecState Host)
    (paused : Finishes (Program.new code codeBase memCycles) handler s (.exit .outOfGas s1)) :
    let prog := Program.new code codeBase memCycles
    (∃ n c, runConfig prog handler s n = some c ∧ AnsweredOutOfGas handler c ∧
        step prog handler c.1 c.2 = .exit .outOfGas s1) ∨
      ∃ n idx sb, runConfig prog handler s n = some (idx, sb) ∧
        (prog.fetch idx).isGasBlockStart = true ∧ s1 = { sb with pc := (prog.fetch idx).pc } ∧
        ∀ more final, Finishes prog handler (s1.topUp more) final ↔
          Finishes prog handler (s.topUp more) final := by
  intro prog
  have predecoded : Predecoded prog := Program.new_predecoded code codeBase memCycles
  obtain ⟨first, entered⟩ := enter_eq_next_of_outOfGas paused
  have ends : EndsIn prog handler (.next first s) (.exit .outOfGas s1) := by
    rw [← entered]
    exact paused
  obtain ⟨n, ⟨idx, sb⟩, reached, last⟩ := last_step (c := (first, s)) ends
  have ran : runConfig prog handler s n = some (idx, sb) := by
    rw [runConfig, entered]
    exact reached
  rcases step_outOfGas predecoded last with answered | ⟨started, rfl⟩
  · exact .inl ⟨n, (idx, sb), ran, answered, last⟩
  · refine .inr ⟨n, idx, sb, ran, started, rfl, fun more final => ?_⟩
    have fits : (prog.fetch idx).pc < 2 ^ 32 :=
      (pc_lt_of_mem_predecode (List.get_mem _ _)).trans_le small
    -- Both runs come to the block with the same state, up to the offset recorded at the pause.
    have resumed : Finishes prog handler ({ sb with pc := (prog.fetch idx).pc }.topUp more) final ↔
        EndsIn prog handler (.next idx { sb.topUp more with pc := (prog.fetch idx).pc }) final := by
      rw [Finishes, ← enter_of_blockStart predecoded fits started]
      rfl
    have unsplit : Finishes prog handler (s.topUp more) final ↔
        EndsIn prog handler (.next idx (sb.topUp more)) final := by
      rw [Finishes, enter_topUp, entered]
      exact endsIn_configsFrom (configsFrom_topUp reached more) final
    rw [resumed, unsplit]
    exact ⟨.of_samePoint ⟨rfl, rfl⟩, .of_samePoint ⟨rfl, rfl⟩⟩

/-- The program `jal x0, 4` followed by a trap, of two blocks. -/
def jumpThenTrap : List Byte := [0x6F, 0x00, 0x40, 0x00, 0x0B, 0x00, 0x00, 0x00]

/-- With gas for the first block only, the run stops before the second one, and ends with more gas
as it would have ended with that gas from the start. -/
theorem outOfGas_pause_resumes_jump :
    let prog := Program.new jumpThenTrap 0 25
    let s1 : ExecState Unit := { freshState 0 with pc := 4 }
    Finishes prog idleHandler (freshState 12) (.exit .outOfGas s1) ∧
      ∀ more final, Finishes prog idleHandler (s1.topUp more) final ↔
        Finishes prog idleHandler ((freshState 12).topUp more) final := by
  intro prog s1
  have paused : Finishes prog idleHandler (freshState 12) (.exit .outOfGas s1) := ⟨rfl, 2, rfl⟩
  refine ⟨paused, ?_⟩
  rcases outOfGas_pause_resumes jumpThenTrap 0 25 (by decide) idleHandler _ _ paused with
    ⟨n, c, _, ⟨kind, _, answered⟩, _⟩ | ⟨n, idx, sb, _, _, _, resumes⟩
  · cases answered
  · exact resumes

end Jar
