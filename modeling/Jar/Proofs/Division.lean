import Jar.Proofs.Emit

/-! The code emitted for division and remainder, and the values it computes. -/

namespace Jar.Recompiler

open X86 Lower

/-! ## The emitted items -/

/-- The items of the case of a divisor of minus one. -/
def negOneItems (remainder is32 : Bool) (d b : Reg) (join l : Label) : List Item :=
  [.newLabel, .ins (.aluImm (opSize is32) .cmp b (-1)), .jcc .ne l]
    ++ (if remainder then [movRi64 d 0]
      else movRR d .rax ++ .neg64 d :: widenCode is32 d).map .ins
    ++ [.jmp join, .bind l]

/-- The items of the case split and the division, with labels from `l` on. -/
def divCoreItems (signed remainder is32 : Bool) (d b : Reg) (l : Label) : List Item :=
  [.ins (.alu (opSize is32) .test b b), .newLabel, .newLabel, .jcc .ne l]
    ++ (if remainder then movRR d .rax ++ widenCode is32 d else [movRi64 d (-1)]).map .ins
    ++ [.jmp (l + 1), .bind l]
    ++ (if signed then negOneItems remainder is32 d b (l + 1) (l + 2) else [])
    ++ (divideCode signed is32 b
      ++ (movRR d (if remainder then scratch else .rax) ++ widenCode is32 d)).map .ins
    ++ [.bind (l + 1)]

def divItems (signed remainder is32 : Bool) (d : Reg) (r1 r2 : Option Reg) (l : Label) :
    List Item :=
  (divPrologue d r1 r2).map .ins ++ divCoreItems signed remainder is32 d (divisorReg r2) l
    ++ (divEpilogue d r2).map .ins

theorem rvDivRem_apply {rd rs1 rs2 : RegIdx} {slot : HostSlot} {r1 r2 : Option Reg}
    (mapped : rvSlot rd = some slot) (src1 : IsSrc rs1 r1) (src2 : IsSrc rs2 r2)
    (signed remainder is32 : Bool) (pc : Nat) (st : LowerState) :
    rvDivRem rd rs1 rs2 signed remainder is32 pc st =
      some ((), { st with
        items := st.items ++ divItems signed remainder is32 (regMap slot) r1 r2 st.labelsLen
        labelsLen := st.labelsLen + if signed then 3 else 2
        regDefs := setDef st.regDefs slot .unknown }) := by
  have ordinary : ∀ rs ∈ [rs1, rs2], regIsReserved rs = false := by
    simp [isSrc_not_reserved src1, isSrc_not_reserved src2]
  rw [rvDivRem, rvRoutine_mapped mapped ordinary]
  simp only [rvSrc_isSrc src1, rvSrc_isSrc src2, pure_bind]
  cases signed <;> simp [divCore, negOneCase, divItems, divCoreItems, negOneItems]

/-! ## The hardware division -/

/-- The processor divides a sign-filled dividend unless the quotient overflows. -/
theorem divide_signed {n : Nat} (a b : BitVec (n + 1)) (nonzero : b ≠ 0) (notNegOne : b ≠ -1) :
    divide true (a.sshiftRight n) a b = some (a.sdiv b, a.srem b) := by
  have range := Word.tdiv_range a b (.inr notNegOne)
  have divisor : b.toInt ≠ 0 := by
    intro zero
    exact nonzero (BitVec.eq_of_toInt_eq (by simpa using zero))
  have quotient : BitVec.ofInt (n + 1) (a.toInt.tdiv b.toInt) = a.sdiv b := by
    rw [← BitVec.toInt_sdiv_of_ne_or_ne a b (.inr notNegOne), BitVec.ofInt_toInt]
  have remainder : BitVec.ofInt (n + 1) (a.toInt.tmod b.toInt) = a.srem b := by
    rw [← BitVec.toInt_srem, BitVec.ofInt_toInt]
  have fits : ¬(b.toInt = 0 ∨ a.toInt.tdiv b.toInt < -2 ^ (n + 1 - 1) ∨
      2 ^ (n + 1 - 1) ≤ a.toInt.tdiv b.toInt) := by
    simp only [Nat.add_sub_cancel]
    omega
  simp only [divide, if_true, Word.toInt_signFill_append, fits, if_false, quotient, remainder]

/-- The processor divides a zero-filled dividend by any nonzero divisor. -/
theorem divide_unsigned {n : Nat} (a b : BitVec n) (nonzero : b ≠ 0) :
    divide false 0#n a b = some (a / b, a % b) := by
  have divisor : b.toNat ≠ 0 := by
    intro zero
    exact nonzero (BitVec.eq_of_toNat_eq (by simpa using zero))
  have small : a.toNat / b.toNat < 2 ^ n := Nat.lt_of_le_of_lt (Nat.div_le_self _ _) a.isLt
  have dividend : (0#n ++ a).toNat = a.toNat := by simp
  have fits : ¬(b.toNat = 0 ∨ 2 ^ n ≤ a.toNat / b.toNat) := by omega
  have quotient : BitVec.ofNat n (a.toNat / b.toNat) = a / b := by
    apply BitVec.eq_of_toNat_eq
    rw [BitVec.toNat_ofNat, BitVec.toNat_udiv, Nat.mod_eq_of_lt small]
  have remainder : BitVec.ofNat n (a.toNat % b.toNat) = a % b := by
    apply BitVec.eq_of_toNat_eq
    rw [BitVec.toNat_ofNat, BitVec.toNat_umod, Nat.mod_eq_of_lt]
    exact Nat.lt_of_le_of_lt (Nat.mod_le _ _) a.isLt
  simp only [divide, Bool.false_eq_true, if_false, dividend, fits, quotient, remainder]

/-! ## Values -/

def divOp (signed remainder is32 : Bool) : RegOp :=
  match signed, remainder, is32 with
  | true, false, false => .div
  | false, false, false => .divu
  | true, true, false => .rem
  | false, true, false => .remu
  | true, false, true => .divw
  | false, false, true => .divuw
  | true, true, true => .remw
  | false, true, true => .remuw

/-- The value of a register as an operand of a given size. -/
def narrow (is32 : Bool) (v : Word64) : Word64 := if is32 then sext32 (low32 v) else v

theorem divOp_eval_zero {signed remainder is32 : Bool} {a b : Word64}
    (zero : narrow is32 b = 0) :
    (divOp signed remainder is32).eval a b = if remainder then narrow is32 a else -1 := by
  cases is32
  · simp only [narrow, Bool.false_eq_true, if_false] at zero
    subst zero
    cases signed <;> cases remainder <;>
      simp [divOp, RegOp.eval, divSigned, divUnsigned, remSigned, remUnsigned, narrow]
  · have half : low32 b = 0 := by simpa [narrow] using (sext32_eq_iff (low32 b) 0).mp zero
    cases signed <;> cases remainder <;>
      simp [divOp, RegOp.eval, divSigned, divUnsigned, remSigned, remUnsigned, narrow, half, sext32]

theorem divOp_eval_negOne {remainder is32 : Bool} {a b : Word64} (negOne : narrow is32 b = -1) :
    (divOp true remainder is32).eval a b = if remainder then 0 else narrow is32 (-a) := by
  cases is32
  · simp only [narrow, Bool.false_eq_true, if_false] at negOne
    subst negOne
    cases remainder <;>
      simp only [divOp, RegOp.eval, divSigned, remSigned, Word.sdiv_neg_one, Word.srem_neg_one,
        narrow]
    · by_cases least : a = BitVec.intMin 64 <;> simp [least]
    · simp
  · have half : low32 b = -1 := (sext32_eq_iff (low32 b) (-1)).mp negOne
    cases remainder <;>
      simp only [divOp, RegOp.eval, divSigned, remSigned, half, Word.sdiv_neg_one,
        Word.srem_neg_one, narrow, low32_neg]
    · by_cases least : low32 a = BitVec.intMin 32 <;> simp [least]
    · simp [sext32]

def regularDiv {n : Nat} (signed remainder : Bool) (a b : BitVec n) : BitVec n :=
  match signed, remainder with
  | true, false => a.sdiv b
  | true, true => a.srem b
  | false, false => a / b
  | false, true => a % b

/-- The value for a divisor that is neither zero nor minus one. -/
theorem divOp_eval_regular {signed remainder is32 : Bool} {a b : Word64}
    (nonzero : narrow is32 b ≠ 0) (notNegOne : signed = true → narrow is32 b ≠ -1) :
    (divOp signed remainder is32).eval a b =
      if is32 then sext32 (regularDiv signed remainder (low32 a) (low32 b))
      else regularDiv signed remainder a b := by
  cases is32
  · simp only [narrow, Bool.false_eq_true, if_false] at nonzero notNegOne
    cases signed <;> cases remainder <;>
      simp_all [divOp, RegOp.eval, divSigned, divUnsigned, remSigned, remUnsigned, regularDiv]
  · have half : low32 b ≠ 0 := fun zero => nonzero ((sext32_eq_iff _ 0).mpr zero)
    have halfNegOne : signed = true → low32 b ≠ -1 :=
      fun isSigned same => notNegOne isSigned ((sext32_eq_iff _ (-1)).mpr same)
    cases signed <;> cases remainder <;>
      simp_all [divOp, RegOp.eval, divSigned, divUnsigned, remSigned, remUnsigned, regularDiv]

/-! ## Runs -/

section

variable {env : Env} {m : Machine} {rest : List Item} {d b : Reg}

theorem run_div64 {signed : Bool} {q r : Word64}
    (value : divide signed (m.regs .rdx) (m.regs .rax) (m.regs b) = some (q, r)) :
    run env (.ins (.div .q64 signed b) :: rest) m =
      run env rest (({ m with flags := .unknown }.setReg .rax q).setReg .rdx r) :=
  run_ins (by simp only [exec, Machine.div, value])

theorem run_div32 {signed : Bool} {q r : BitVec 32}
    (value : divide signed (low32 (m.regs .rdx)) (low32 (m.regs .rax)) (low32 (m.regs b)) =
      some (q, r)) :
    run env (.ins (.div .d32 signed b) :: rest) m =
      run env rest (({ m with flags := .unknown }.setReg32 .rax q).setReg32 .rdx r) :=
  run_ins (by simp only [exec, Machine.div, value])

theorem run_widen (is32 : Bool) (ordinary : d ≠ .rsp) :
    run env ((widenCode is32 d).map .ins ++ rest) m =
      run env rest (m.setReg d (narrow is32 (m.regs d))) := by
  cases is32
  · exact congrArg _ (Machine.setReg_self ordinary).symm
  · exact run_ins rfl

theorem run_movWiden (is32 : Bool) {src : Reg} (ordinary : d ≠ .rsp) :
    run env ((movRR d src ++ widenCode is32 d).map .ins ++ rest) m =
      run env rest (m.setReg d (narrow is32 (m.regs src))) := by
  rw [List.map_append, List.append_assoc, run_movRR ordinary, run_widen is32 ordinary]
  simp [Machine.setReg, ordinary]

theorem run_push {r : Reg} :
    run env (.ins (.push r) :: rest) m = run env rest (m.push (m.regs r)) := run_ins rfl

theorem run_load64 {dst : Reg} {disp : BitVec 32} {v : Word64}
    (there : m.stack[disp.toNat / 8]? = some v) :
    run env (.ins (.load64 dst .rsp disp) :: rest) m = run env rest (m.setReg dst v) :=
  run_ins (by simp [exec, there])

theorem run_pop {r : Reg} {v : Word64} {stack : List Word64} (top : m.stack = v :: stack) :
    run env (.ins (.pop r) :: rest) m = run env rest { m with
      regs := Function.update (Function.update m.regs .rsp (m.regs .rsp + 8)) r v
      stack := stack } :=
  run_ins (by simp [exec, Machine.pop, top])

theorem keeps_raxRdx {m' : Machine} {f : Flags} {q r : Word64} (base : Keeps [.rax, .rdx] m m') :
    Keeps [.rax, .rdx] m (({ m' with flags := f }.setReg .rax q).setReg .rdx r) :=
  (base.setReg (by decide) (by simp) q f).setReg (by decide) (by simp) r _

end

section

variable (env : Env) {m : Machine} (rest : List Item) {d b : Reg}

/-- The hardware division leaves quotient and remainder in RAX and RDX. -/
theorem run_divideCode (signed is32 : Bool) (notRax : b ≠ .rax) (notRdx : b ≠ .rdx)
    (nonzero : narrow is32 (m.regs b) ≠ 0)
    (notNegOne : signed = true → narrow is32 (m.regs b) ≠ -1) :
    ∃ m', run env ((divideCode signed is32 b).map .ins ++ rest) m = run env rest m' ∧
      (∀ remainder, narrow is32 (m'.regs (if remainder then scratch else .rax)) =
        (divOp signed remainder is32).eval (m.regs .rax) (m.regs b)) ∧
      Keeps [.rax, .rdx] m m' := by
  have start := Keeps.refl [.rax, .rdx] m
  simp only [divOp_eval_regular nonzero notNegOne]
  cases is32
  · cases signed
    · -- RDX is cleared.
      have quotient := divide_unsigned (m.regs .rax) (m.regs b) nonzero
      simp only [divideCode, List.map_cons, List.cons_append, run_movRi64, List.map_nil,
        List.nil_append]
      rw [run_div64 (by simpa [notRdx] using quotient)]
      refine ⟨_, rfl, ?_, keeps_raxRdx (start.setReg (by decide) (by simp) _ _)⟩
      rintro (_ | _) <;> simp [regularDiv, narrow]
    · -- RDX is filled with the sign.
      have quotient := divide_signed (n := 63) (m.regs .rax) (m.regs b) nonzero (notNegOne rfl)
      simp only [divideCode, List.map_cons, List.cons_append, List.map_nil, List.nil_append]
      rw [run_ins (show exec env m .cqo = .next _ from rfl),
        run_div64 (by simpa [notRdx] using quotient)]
      refine ⟨_, rfl, ?_, keeps_raxRdx (start.setReg (by decide) (by simp) _ m.flags)⟩
      rintro (_ | _) <;> simp [regularDiv, narrow]
  · have half : low32 (m.regs b) ≠ 0 := fun zero => nonzero ((sext32_eq_iff _ 0).mpr zero)
    cases signed
    · have quotient := divide_unsigned (low32 (m.regs .rax)) (low32 (m.regs b)) half
      simp only [divideCode, List.map_cons, List.cons_append, List.map_nil, List.nil_append]
      rw [run_ins (show exec env m (.extend .movzx32 .rax .rax) = .next _ from rfl), run_movRi64,
        run_div32 (by simpa [notRdx, notRax, Extend.value] using quotient)]
      refine ⟨_, rfl, ?_, keeps_raxRdx
        ((start.setReg (by decide) (by simp) _ m.flags).setReg (by decide) (by simp) _ _)⟩
      rintro (_ | _) <;> simp [regularDiv, narrow, Machine.setReg32]
    · have notOne : low32 (m.regs b) ≠ -1 :=
        fun same => notNegOne rfl ((sext32_eq_iff _ (-1)).mpr same)
      have quotient := divide_signed (n := 31) (low32 (m.regs .rax)) (low32 (m.regs b)) half notOne
      simp only [divideCode, List.map_cons, List.cons_append, List.map_nil, List.nil_append]
      rw [run_ins (show exec env m (.extend .movsxd .rax .rax) = .next _ from rfl),
        run_ins (show exec env _ .cdq = .next _ from rfl),
        run_div32 (by simpa [notRdx, notRax, Extend.value, Machine.setReg32] using quotient)]
      refine ⟨_, rfl, ?_, keeps_raxRdx
        ((start.setReg (by decide) (by simp) _ m.flags).setReg (by decide) (by simp) _ m.flags)⟩
      rintro (_ | _) <;> simp [regularDiv, narrow, Machine.setReg32]

theorem run_testJne (is32 : Bool) {l : Label} :
    ∃ flags, run env (.ins (.alu (opSize is32) .test b b) :: .newLabel :: .newLabel ::
        .jcc .ne l :: rest) m =
      if narrow is32 (m.regs b) = 0 then run env rest { m with flags := flags }
      else skipTo env l rest { m with flags := flags } := by
  cases is32
  · have next : exec env m (.alu .q64 .test b b) =
        .next { m with flags := logicFlags (m.regs b &&& m.regs b) } := rfl
    refine ⟨logicFlags (m.regs b &&& m.regs b), (run_ins next).trans ?_⟩
    rw [run_newLabel, run_newLabel, run_jne (p := narrow false (m.regs b) = 0)]
    simp only [logicFlags, BitVec.and_self, beq_eq_decide, narrow]
    rfl
  · have next : exec env m (.alu .d32 .test b b) =
        .next { m with flags := logicFlags (low32 (m.regs b) &&& low32 (m.regs b)) } := rfl
    refine ⟨logicFlags (low32 (m.regs b) &&& low32 (m.regs b)), (run_ins next).trans ?_⟩
    rw [run_newLabel, run_newLabel, run_jne (p := narrow true (m.regs b) = 0)]
    have same : sext32 (low32 (m.regs b)) = 0 ↔ low32 (m.regs b) = 0 := sext32_eq_iff _ 0
    simpa only [logicFlags, BitVec.and_self, beq_eq_decide, narrow, Option.some.injEq, if_true,
      decide_eq_decide] using same.symm

theorem run_cmpJne (is32 : Bool) {l : Label} :
    ∃ flags, run env (.ins (.aluImm (opSize is32) .cmp b (-1)) :: .jcc .ne l :: rest) m =
      if narrow is32 (m.regs b) = -1 then run env rest { m with flags := flags }
      else skipTo env l rest { m with flags := flags } := by
  cases is32
  · have next : exec env m (.aluImm .q64 .cmp b (-1)) =
        .next { m with flags := subFlags (m.regs b) (sext32 (-1)) } := rfl
    refine ⟨subFlags (m.regs b) (sext32 (-1)), (run_ins next).trans ?_⟩
    rw [run_jne (p := narrow false (m.regs b) = -1)]
    rw [subFlags, Word.sub_beq_zero, beq_eq_decide]
    rfl
  · have next : exec env m (.aluImm .d32 .cmp b (-1)) =
        .next { m with flags := subFlags (low32 (m.regs b)) (low32 (sext32 (-1))) } := rfl
    refine ⟨subFlags (low32 (m.regs b)) (low32 (sext32 (-1))), (run_ins next).trans ?_⟩
    rw [run_jne (p := narrow true (m.regs b) = -1)]
    have same : sext32 (low32 (m.regs b)) = -1 ↔ low32 (m.regs b) = -1 := sext32_eq_iff _ (-1)
    rw [subFlags, Word.sub_beq_zero, beq_eq_decide, low32_sext32]
    simpa only [narrow, if_true, Option.some.injEq, decide_eq_decide] using same.symm

theorem run_zeroCase (remainder is32 : Bool) (ordinary : d ≠ .rsp) :
    ∃ m', run env ((if remainder then movRR d .rax ++ widenCode is32 d
        else [movRi64 d (-1)]).map .ins ++ rest) m = run env rest m' ∧
      m'.regs d = (if remainder then narrow is32 (m.regs .rax) else -1) ∧
      Keeps [d, .rax, .rdx] m m' := by
  have start := Keeps.refl [d, .rax, .rdx] m
  cases remainder
  · exact ⟨_, run_movRi64, by simp, start.setReg ordinary (by simp) _ _⟩
  · exact ⟨_, run_movWiden is32 ordinary, by simp, start.setReg ordinary (by simp) _ m.flags⟩

theorem run_negOneCase (remainder is32 : Bool) (ordinary : d ≠ .rsp) :
    ∃ m', run env ((if remainder then [movRi64 d 0]
        else movRR d .rax ++ .neg64 d :: widenCode is32 d).map .ins ++ rest) m =
          run env rest m' ∧
      m'.regs d = (if remainder then 0 else narrow is32 (-m.regs .rax)) ∧
      Keeps [d, .rax, .rdx] m m' := by
  have start := Keeps.refl [d, .rax, .rdx] m
  cases remainder
  · have negated (tail : List Item) (m : Machine) : run env (.ins (.neg64 d) :: tail) m =
        run env tail ({ m with flags := .unknown }.setReg d (-m.regs d)) := run_ins rfl
    simp only [Bool.false_eq_true, if_false, List.map_append, List.append_assoc, run_movRR ordinary,
      List.map_cons, List.cons_append, negated,
      run_widen is32 ordinary]
    have moved := start.setReg ordinary (by simp) (m.regs .rax) m.flags
    have negative := moved.setReg ordinary (by simp) (-(m.setReg d (m.regs .rax)).regs d) .unknown
    exact ⟨_, rfl, by simp, negative.setReg ordinary (by simp) _ .unknown⟩
  · exact ⟨_, run_movRi64, by simp, start.setReg ordinary (by simp) _ _⟩

theorem run_regularCase (signed remainder is32 : Bool) (ordinary : d ≠ .rsp)
    (notRax : b ≠ .rax) (notRdx : b ≠ .rdx) (nonzero : narrow is32 (m.regs b) ≠ 0)
    (notNegOne : signed = true → narrow is32 (m.regs b) ≠ -1) :
    ∃ m', run env ((divideCode signed is32 b
        ++ (movRR d (if remainder then scratch else .rax) ++ widenCode is32 d)).map .ins ++ rest) m =
          run env rest m' ∧
      m'.regs d = (divOp signed remainder is32).eval (m.regs .rax) (m.regs b) ∧
      Keeps [d, .rax, .rdx] m m' := by
  rw [List.map_append, List.append_assoc]
  obtain ⟨divided, ran, value, keeps⟩ := run_divideCode env
    ((movRR d (if remainder then scratch else .rax) ++ widenCode is32 d).map .ins ++ rest) signed is32
    notRax notRdx nonzero notNegOne
  rw [ran, run_movWiden is32 ordinary]
  refine ⟨_, rfl, by simpa using value remainder, ?_⟩
  have wider : Keeps [d, .rax, .rdx] m divided :=
    ⟨fun r unlisted => keeps.regs r (by simp_all), keeps.stack, keeps.ctx, keeps.mem⟩
  exact wider.setReg ordinary (by simp) _ divided.flags

/-- A jump to the common end passes over the case of minus one. -/
theorem skipTo_negOne (signed remainder is32 : Bool) {join l : Label} (distinct : join ≠ l) :
    skipTo env join ((if signed then negOneItems remainder is32 d b join l else []) ++ rest) m =
      skipTo env join rest m := by
  cases signed
  · rfl
  · simp [negOneItems, distinct]

/-- The case split computes the operation in every case. -/
theorem run_divCore (signed remainder is32 : Bool) {l : Label} (ordinary : d ≠ .rsp)
    (notRax : b ≠ .rax) (notRdx : b ≠ .rdx) :
    ∃ m', run env (divCoreItems signed remainder is32 d b l ++ rest) m = run env rest m' ∧
      m'.regs d = (divOp signed remainder is32).eval (m.regs .rax) (m.regs b) ∧
      Keeps [d, .rax, .rdx] m m' := by
  have weaken {flags : Flags} {m' : Machine}
      (keeps : Keeps [d, .rax, .rdx] { m with flags := flags } m') : Keeps [d, .rax, .rdx] m m' :=
    ⟨keeps.regs, keeps.stack, keeps.ctx, keeps.mem⟩
  simp only [divCoreItems, List.cons_append, List.nil_append, List.append_assoc]
  obtain ⟨flags, tested⟩ := run_testJne env (m := m) (b := b) (l := l)
    ((if remainder then movRR d .rax ++ widenCode is32 d else [movRi64 d (-1)]).map .ins
      ++ .jmp (l + 1) :: .bind l ::
        ((if signed then negOneItems remainder is32 d b (l + 1) (l + 2) else [])
          ++ ((divideCode signed is32 b ++ (movRR d (if remainder then scratch else .rax)
            ++ widenCode is32 d)).map .ins ++ .bind (l + 1) :: rest))) is32
  rw [tested]
  by_cases zero : narrow is32 (m.regs b) = 0
  · rw [if_pos zero, divOp_eval_zero zero]
    obtain ⟨m', ran, value, keeps⟩ := run_zeroCase env _
      (m := { m with flags := flags }) remainder is32 ordinary
    rw [ran, run_jmp, skipTo_bind, if_neg (by simp), skipTo_negOne env _ _ _ _ (by simp), skipTo_code,
      skipTo_bind, if_pos rfl]
    exact ⟨m', rfl, value, weaken keeps⟩
  · rw [if_neg zero, skipTo_code, skipTo_jmp, skipTo_bind, if_pos rfl]
    cases signed
    · simp only [Bool.false_eq_true, if_false, List.nil_append]
      obtain ⟨m', ran, value, keeps⟩ := run_regularCase env
        (.bind (l + 1) :: rest) (m := { m with flags := flags }) false remainder is32
        ordinary notRax notRdx zero (by simp)
      exact ⟨m', ran, value, weaken keeps⟩
    · simp only [if_true, negOneItems, List.cons_append, List.nil_append, List.append_assoc,
        run_newLabel]
      obtain ⟨flags', compared⟩ := run_cmpJne env _ (m := { m with flags := flags })
        (b := b) is32 (l := l + 2)
      rw [compared]
      by_cases negOne : narrow is32 (m.regs b) = -1
      · rw [if_pos negOne, divOp_eval_negOne negOne]
        obtain ⟨m', ran, value, keeps⟩ := run_negOneCase env _
          (m := { m with flags := flags' }) remainder is32 ordinary
        rw [ran, run_jmp, skipTo_bind, if_neg (by simp), skipTo_code, skipTo_bind, if_pos rfl]
        exact ⟨m', rfl, value, weaken keeps⟩
      · rw [if_neg negOne, skipTo_code, skipTo_jmp, skipTo_bind, if_pos rfl]
        obtain ⟨m', ran, value, keeps⟩ := run_regularCase env
          (.bind (l + 1) :: rest) (m := { m with flags := flags' }) true remainder is32
          ordinary notRax notRdx zero (fun _ => negOne)
        exact ⟨m', ran, value, weaken keeps⟩

end

/-! ## Saving and restoring -/

section

variable (env : Env) {m : Machine} (rest : List Item) {d : Reg} {r1 r2 : Option Reg}

/-- What the prologue pushes, the top of the stack first. -/
def divSaved (m : Machine) (d : Reg) (r2 : Option Reg) : List Word64 :=
  (if spillsRcx r2 then [m.regs .rcx] else []) ++ (if d ≠ .rax then [m.regs .rax] else [])

/-- The state after the pushes of the prologue. -/
def divPushed (m : Machine) (d : Reg) (r2 : Option Reg) : Machine :=
  { m with
    regs := Function.update m.regs .rsp
      (m.regs .rsp - 8 * BitVec.ofNat 64 (divSaved m d r2).length)
    stack := divSaved m d r2 ++ m.stack }

theorem run_divPushes :
    run env ((onlyIf (d ≠ .rax) [.push .rax]).map .ins
      ++ ((onlyIf (spillsRcx r2) [.push .rcx]).map .ins ++ rest)) m =
        run env rest (divPushed m d r2) := by
  by_cases keep : d = .rax <;> cases spill : spillsRcx r2 <;>
    simp [onlyIf, keep, spill, divPushed, divSaved, run_push, Machine.push]
  rw [BitVec.sub_sub]
  rfl

theorem run_divisorCode (host2 : ∀ r, r2 = some r → IsHost r) :
    ∃ m', run env ((divisorCode d r2).map .ins ++ rest) (divPushed m d r2) = run env rest m' ∧
      m'.regs (divisorReg r2) = srcVal m r2 ∧
      Keeps (if spillsRcx r2 then [.rcx] else []) (divPushed m d r2) m' := by
  have start := Keeps.refl [.rcx] (divPushed m d r2)
  rcases r2 with _ | r
  · exact ⟨_, run_movRi64, by simp [divisorReg, srcVal],
      start.setReg (by decide) (by simp) _ _⟩
  · by_cases inRax : r = .rax
    · subst inRax
      by_cases keep : d = .rax
      · refine ⟨(divPushed m d (some .rax)).setReg .rcx ((divPushed m d (some .rax)).regs .rax),
          ?_, ?_, ?_⟩
        · simpa [divisorCode, keep] using run_movRR (by decide)
        · simp [divisorReg, srcVal, divPushed]
        · exact start.setReg (by decide) (by simp) _ (divPushed m d (some .rax)).flags
      · refine ⟨(divPushed m d (some .rax)).setReg .rcx (m.regs .rax), ?_, ?_, ?_⟩
        · simpa [divisorCode, keep] using run_load64 (by simp [divPushed, divSaved, spillsRcx, keep])
        · simp [divisorReg, srcVal]
        · exact start.setReg (by decide) (by simp) _ (divPushed m d (some .rax)).flags
    · have notRsp := (host2 r rfl).2.1
      refine ⟨divPushed m d (some r), ?_, ?_, Keeps.refl _ _⟩
      · simp [divisorCode, inRax]
      · simp [divisorReg, inRax, srcVal, divPushed, notRsp]

/-- The dividend that the prologue loads: one in RCX is read after the divisor has moved there. -/
def divDividend (m : Machine) (r1 r2 : Option Reg) : Word64 :=
  if spillsRcx r2 ∧ r1 = some .rcx then srcVal m r2 else srcVal m r1

theorem divisorReg_spills (spill : spillsRcx r2 = true) : divisorReg r2 = .rcx := by
  rcases r2 with _ | r
  · rfl
  · have inRax : r = .rax := by simpa [spillsRcx] using spill
    simp [divisorReg, inRax]

theorem run_loadDividend {mB : Machine} (host1 : ∀ r, r1 = some r → IsHost r)
    (keeps : Keeps (if spillsRcx r2 then [.rcx] else []) (divPushed m d r2) mB)
    (divisor : mB.regs (divisorReg r2) = srcVal m r2) :
    ∃ m', run env ((loadRax r1
        (if d ≠ .rax then some (if spillsRcx r2 then 8 else 0) else none)).map .ins ++ rest) mB =
          run env rest m' ∧
      m'.regs .rax = divDividend m r1 r2 ∧ Keeps [.rax] mB m' := by
  have start := Keeps.refl [.rax] mB
  have rax : mB.regs .rax = m.regs .rax := by
    rw [keeps.regs _ (by split <;> simp)]
    simp [divPushed]
  rcases r1 with _ | r
  · exact ⟨_, run_movRi64, by simp [divDividend, srcVal], start.setReg (by decide) (by simp) _ _⟩
  · by_cases inRax : r = .rax
    · subst inRax
      have value : divDividend m (some .rax) r2 = m.regs .rax := by simp [divDividend, srcVal]
      by_cases keep : d = .rax
      · exact ⟨mB, by simp [loadRax, keep], by rw [value, rax], start⟩
      · refine ⟨mB.setReg .rax (m.regs .rax), ?_, by simp [value], ?_⟩
        · simp only [loadRax, keep, if_true, ne_eq, not_false_eq_true, Option.toList_some,
            List.map_cons, List.map_nil, List.cons_append, List.nil_append]
          refine run_load64 ?_
          rw [keeps.stack]
          cases spill : spillsRcx r2 <;> simp [divPushed, divSaved, spill, keep]
        · exact start.setReg (by decide) (by simp) _ mB.flags
    · refine ⟨_, by simpa [loadRax, inRax] using run_movRR (by decide), ?_, ?_⟩
      · simp only [Machine.setReg_regs, Function.update_self, divDividend]
        by_cases moved : spillsRcx r2 = true ∧ r = .rcx
        · obtain ⟨spill, rfl⟩ := moved
          rw [if_pos ⟨spill, rfl⟩, ← divisor, divisorReg_spills spill]
        · have notRsp := (host1 r rfl).2.1
          rw [if_neg (by simpa using moved), keeps.regs r]
          · simp [divPushed, srcVal, notRsp]
          · cases spill : spillsRcx r2 <;> simp_all
      · exact start.setReg (by decide) (by simp) _ mB.flags

/-- The epilogue restores RCX and RAX as far as they were saved. -/
theorem run_divEpilogue {mC : Machine} (saved : mC.stack = divSaved m d r2 ++ m.stack)
    (rsp : mC.regs .rsp = m.regs .rsp - 8 * BitVec.ofNat 64 (divSaved m d r2).length) :
    ∃ m', run env ((divEpilogue d r2).map .ins ++ rest) mC = run env rest m' ∧
      (∀ r, m'.regs r =
        if r = .rsp ∨ (r = .rax ∧ d ≠ .rax) ∨ (r = .rcx ∧ spillsRcx r2 = true) then m.regs r
        else mC.regs r) ∧
      m'.stack = m.stack ∧ m'.ctx = mC.ctx ∧ m'.mem = mC.mem := by
  by_cases keep : d = .rax <;> cases spill : spillsRcx r2 <;>
    simp only [divSaved, keep, spill, if_true, if_false, Bool.false_eq_true, ne_eq,
      not_true_eq_false, not_false_eq_true, List.nil_append, List.append_nil, List.cons_append,
      List.length_cons, List.length_nil] at saved rsp <;>
    simp only [divEpilogue, onlyIf, keep, spill, ne_eq, not_true_eq_false, not_false_eq_true,
      decide_true, decide_false, if_true, if_false, Bool.false_eq_true, List.map_cons, List.map_nil,
      List.nil_append, List.append_nil, List.cons_append]
  · refine ⟨mC, rfl, fun r => ?_, saved, rfl, rfl⟩
    by_cases isRsp : r = .rsp <;> simp [isRsp, rsp]
  · rw [run_pop saved]
    refine ⟨_, rfl, fun r => ?_, rfl, rfl, rfl⟩
    by_cases isRcx : r = .rcx
    · simp [isRcx]
    · by_cases isRsp : r = .rsp <;> simp [isRcx, isRsp, rsp]
  · rw [run_pop saved]
    refine ⟨_, rfl, fun r => ?_, rfl, rfl, rfl⟩
    by_cases isRax : r = .rax
    · simp [isRax]
    · by_cases isRsp : r = .rsp <;> simp [isRax, isRsp, rsp]
  · rw [run_pop saved, run_pop rfl]
    refine ⟨_, rfl, fun r => ?_, rfl, rfl, rfl⟩
    by_cases isRax : r = .rax
    · simp [isRax]
    · by_cases isRcx : r = .rcx
      · simp [isRcx]
      · by_cases isRsp : r = .rsp
        · simp [isRsp, rsp]
          bv_omega
        · simp [isRax, isRcx, isRsp]

theorem divisorReg_host (host2 : ∀ r, r2 = some r → IsHost r) :
    divisorReg r2 ≠ .rax ∧ divisorReg r2 ≠ .rdx ∧ divisorReg r2 ≠ .rsp := by
  rcases r2 with _ | r
  · decide
  · by_cases inRax : r = .rax
    · simp [divisorReg, inRax]
    · simpa [divisorReg, inRax] using ⟨(host2 r rfl).1, (host2 r rfl).2.1⟩

/-- What a division does to the machine in every case, the wrong ones included. -/
theorem run_divItems (signed remainder is32 : Bool) {l : Label} (host : IsHost d)
    (host1 : ∀ r, r1 = some r → IsHost r) (host2 : ∀ r, r2 = some r → IsHost r) :
    ∃ m', run env (divItems signed remainder is32 d r1 r2 l ++ rest) m = run env rest m' ∧
      (∀ r, r ≠ scratch → m'.regs r =
        if r = d ∧ ¬(d = .rcx ∧ spillsRcx r2 = true) then
          (divOp signed remainder is32).eval (divDividend m r1 r2) (srcVal m r2)
        else m.regs r) ∧
      m'.stack = m.stack ∧ m'.ctx = m.ctx ∧ m'.mem = m.mem := by
  obtain ⟨notRax, notRdx, notRsp⟩ := divisorReg_host host2
  simp only [divItems, divPrologue, List.append_assoc, List.map_append, run_divPushes]
  obtain ⟨mA, ranA, divisor, keepsA⟩ := run_divisorCode env _ (m := m) (d := d) host2
  rw [ranA]
  obtain ⟨mB, ranB, dividend, keepsB⟩ := run_loadDividend env _ host1 keepsA divisor
  rw [ranB]
  obtain ⟨mC, ranC, value, keepsC⟩ := run_divCore env _ (m := mB) (d := d) signed remainder is32
    host.2.1 notRax notRdx
  rw [ranC]
  have saved : mC.stack = divSaved m d r2 ++ m.stack := by
    rw [keepsC.stack, keepsB.stack, keepsA.stack]
    rfl
  have rsp : mC.regs .rsp = m.regs .rsp - 8 * BitVec.ofNat 64 (divSaved m d r2).length := by
    rw [keepsC.regs _ (by simp [host.2.1.symm]), keepsB.regs _ (by simp),
      keepsA.regs _ (by split <;> simp)]
    simp [divPushed]
  obtain ⟨m', ran, regs, stack, ctx, mem⟩ := run_divEpilogue env rest saved rsp
  refine ⟨m', ran, fun r notScratch => ?_, stack, ?_, ?_⟩
  · rw [regs]
    split
    · next restored =>
      rw [if_neg]
      rintro ⟨rfl, notLost⟩
      rcases restored with isRsp | ⟨isRax, notSelf⟩ | isRcx
      · exact host.2.1 isRsp
      · exact notSelf isRax
      · exact notLost isRcx
    · next written =>
      simp only [not_or, not_and, not_not] at written
      obtain ⟨otherRsp, inRax, notMoved⟩ := written
      by_cases isD : r = d
      · subst isD
        rw [if_pos ⟨rfl, by simpa using notMoved⟩, value, dividend, ← divisor,
          keepsB.regs _ (by simpa using notRax)]
      · have otherRax : r ≠ .rax := fun isRax => isD (isRax.trans (inRax isRax).symm)
        rw [if_neg (by simp [isD]), keepsC.regs _ (by simp [isD, otherRax]; exact notScratch),
          keepsB.regs _ (by simpa using otherRax), keepsA.regs]
        · simp [divPushed, otherRsp]
        · cases spill : spillsRcx r2
          · simp
          · simpa using fun isRcx => notMoved isRcx spill
  · rw [ctx, keepsC.ctx, keepsB.ctx, keepsA.ctx]
    rfl
  · rw [mem, keepsC.mem, keepsB.mem, keepsA.mem]
    rfl

end

end Jar.Recompiler
