import Jar.Proofs.ControlSafety

/-! Gas bounds the length of every execution. -/

namespace Jar

variable {Host : Type} {prog : Program} {handler : EcallHandler Host}

/-- How many more steps an execution can take: the rest of the block, and at most the whole program
for each unit of gas. -/
def remaining (prog : Program) (c : Config prog Host) : Nat :=
  c.2.gas * (prog.predecode.insts.length + 1) +
    if (prog.fetch c.1).isGasBlockStart then 0 else prog.predecode.insts.length - c.1.val

theorem gas_lt_of_blockStart (predecoded : Predecoded prog) {idx target : prog.Idx}
    {s s' : ExecState Host} (started : (prog.fetch idx).isGasBlockStart = true)
    (stepped : step prog handler idx s = .next target s') : s'.gas < s.gas := by
  unfold step at stepped
  rcases gate_spec predecoded (.inl started : Ready prog idx s) with
    ⟨after, passed, paid, reserved⟩ | refused
  · rw [passed] at stepped
    dsimp only at stepped
    cases called : isEcallBlock (prog.fetch idx).inst with
    | false =>
      -- The gate takes the cost of the block, which is never zero.
      have safe : (execInst prog handler idx after).Safe prog idx after.gas :=
        execInst_safe predecoded reserved
      rw [stepped] at safe
      have positive := (predecoded.static_costs started called).1
      have kept := safe.1
      omega
    | true =>
      rcases @execInst_ecall Host prog handler idx after called with refused | ⟨covered, left⟩
      · cases stepped.symm.trans refused
      · have positive : 0 < ecallCost (prog.fetch idx).inst := by
          unfold ecallCost
          split <;> decide
        rw [stepped] at left
        have left := Option.some.inj left
        omega
  · rw [refused] at stepped
    cases stepped

theorem remaining_lt (predecoded : Predecoded prog) {c c' : Config prog Host}
    (ready : Ready prog c.1 c.2) (goes : (step prog handler c.1 c.2).config? = some c') :
    remaining prog c' < remaining prog c := by
  have stepped := Outcome.config?_eq_some goes
  obtain ⟨kept, -, -, place⟩ := step_next predecoded ready stepped
  have below := c'.1.isLt
  unfold remaining
  by_cases started : (prog.fetch c.1).isGasBlockStart = true
  · -- A block start pays for the longest way to the next one.
    have spent := gas_lt_of_blockStart predecoded started stepped
    have paid := Nat.mul_le_mul_right (prog.predecode.insts.length + 1) (Nat.succ_le_of_lt spent)
    rw [Nat.succ_mul] at paid
    split <;> omega
  · have less := Nat.mul_le_mul_right (prog.predecode.insts.length + 1) kept
    have here := c.1.isLt
    rw [if_neg started]
    split
    · omega
    · rcases place with start | next
      · contradiction
      · omega

/-- The interpreter's loop ends for every code, handler and state: after as many steps as the gas
and the length of the program allow, no execution goes on. -/
theorem loop_ends (code : List Byte) (codeBase : BitVec 32) (memCycles : Nat)
    (handler : EcallHandler Host) (s0 : ExecState Host) (n : Nat) :
    let prog := Program.new code codeBase memCycles
    loopConfig prog handler s0 (s0.gas * (prog.predecode.insts.length + 1) + 1 + n) = none := by
  intro prog
  have predecoded : Predecoded prog := Program.new_predecoded code codeBase memCycles
  rw [loopConfig_eq predecoded.marked, Option.map_eq_none_iff]
  cases reached : runConfig prog handler s0 _ with
  | none => rfl
  | some c =>
    obtain ⟨start, entered, ran⟩ := Option.bind_eq_some_iff.mp reached
    obtain ⟨same, started⟩ := enter_config entered
    have bound := Transition.runFor_bounded (I := fun c : Config prog Host => Ready prog c.1 c.2)
      (f := remaining prog) (.inl started)
      (fun u t ready goes => (step_next predecoded ready (Outcome.config?_eq_some goes)).2.1)
      (fun u t ready goes => remaining_lt predecoded ready goes) ran
    have first : remaining prog start = s0.gas * (prog.predecode.insts.length + 1) := by
      rw [remaining, if_pos started, same, Nat.add_zero]
    omega

end Jar
