import Jar.Recompiler.Emit

/-! Lowering of the arithmetic instructions to host code. -/

namespace Jar.Recompiler

open X86 Lower

/-! ## Assembler shorthands -/

/-- `mov r64, r64`, which emits nothing for equal registers. -/
def movRR (dst src : Reg) : List Instr := if dst = src then [] else [.movRR dst src]

/-- `mov r64, imm64` in its shortest form. -/
def movRi64 (dst : Reg) (imm : Word64) : Instr :=
  if imm = 0 then .xorZero dst
  else if imm.toNat ≤ 0xFFFFFFFF then .movImm32 dst (low32 imm)
  else if -2 ^ 31 ≤ imm.toInt ∧ imm.toInt < 2 ^ 31 then .movImmSx dst (low32 imm)
  else .movImm64 dst imm

/-- Code that is emitted under a condition. -/
def onlyIf (c : Bool) (code : List Instr) : List Instr := if c then code else []

/-- Two-register 64-bit instruction. -/
abbrev aluRR (op : Alu) (dst src : Reg) : Instr := .alu .q64 op dst src

/-- 64-bit instruction with a sign-extended immediate. -/
abbrev aluRi (op : Alu) (dst : Reg) (imm : BitVec 32) : Instr := .aluImm .q64 op dst imm

/-! ## Operands -/

/-- Exit with a panic that reports a guest offset. -/
def rvEmitPanicAt (pc : Nat) : Lower Unit :=
  emitItems [.ins (.storeCtx32Imm .pc (BitVec.ofNat 32 pc)),
    .ins (.storeCtx32Imm .exitReason exitPanic), .jmp exitLabel]

/-- Read a source register into a host register. -/
def rvRead (rs : RegIdx) (dst : Reg) (pc : Nat) : Lower Unit := do
  if rs = 0 then emit [movRi64 dst 0]
  else if regIsSpilled rs then emit [.loadCtx64 dst (.reg (spillSlot rs))]
  else if regIsReserved rs then rvEmitPanicAt pc
  else emit (movRR dst (← unwrap (hostReg rs)))

/-- The host register that holds a source, loading it into `tmp` when none does. -/
def rvReadInto (rs : RegIdx) (tmp : Reg) (pc : Nat) : Lower Reg := do
  if rs = 0 then
    emit [movRi64 tmp 0]
    return tmp
  else if regIsSpilled rs then
    emit [.loadCtx64 tmp (.reg (spillSlot rs))]
    return tmp
  else if regIsReserved rs then
    rvEmitPanicAt pc
    return tmp
  else unwrap (hostReg rs)

/-- The host register of a destination, absent for `x0` and after a panic for a reserved one. -/
def rvDst (rd : RegIdx) (pc : Nat) : Lower (Option Reg) := do
  if rd = 0 then return none
  else if regIsReserved rd then
    rvEmitPanicAt pc
    return none
  else return some (← unwrap (hostReg rd))

/-- The host register of a source that is already known not to be reserved, absent for `x0`. -/
def rvSrc (rs : RegIdx) : Lower (Option Reg) := do
  if rs = 0 then return none else return some (← unwrap (hostReg rs))

/-- Forget what is known about a destination. -/
def invalidateRd (rd : RegIdx) : Lower Unit := do
  if rd = 0 then return else invalidateReg (← unwrap (rvSlot rd))

/-- The shape of most routines: resolve the destination, reject reserved sources, emit the code of
the resolved operands and forget the destination. -/
def rvRoutine (rd : RegIdx) (sources : List RegIdx) (pc : Nat) (body : Reg → Lower Unit) :
    Lower Unit := do
  match ← rvDst rd pc with
  | none => return
  | some d =>
    if sources.any regIsReserved then rvEmitPanicAt pc
    else
      body d
      invalidateRd rd

/-! ## Constants -/

/-- `lui`. -/
def rvLui (rd : RegIdx) (imm : BitVec 32) (pc : Nat) : Lower Unit :=
  rvRoutine rd [] pc fun d => emit [movRi64 d (sext32 imm)]

/-- `auipc`, a constant at compile time. -/
def rvAuipc (env : CodeEnv) (rd : RegIdx) (imm : BitVec 32) (pc : Nat) : Lower Unit :=
  rvRoutine rd [] pc fun d =>
    emit [movRi64 d (sext32 (env.codeBase + BitVec.ofNat 32 pc + imm))]

/-! ## Arithmetic -/

/-- The immediate operations. -/
inductive AluImmOp where
  | add | and | or | xor | addw
  deriving DecidableEq, Repr

/-- The two-register operations. -/
inductive AluOp where
  | add | sub | and | or | xor | mul | addw | subw | mulw
  | min | max | minu | maxu | andn | orn | xnor
  deriving DecidableEq, Repr

def aluImmCode (op : AluImmOp) (d : Reg) (imm : BitVec 32) : List Instr :=
  match op with
  | .add => [aluRi .add d imm]
  | .and => [aluRi .and d imm]
  | .or => [aluRi .or d imm]
  | .xor => [aluRi .xor d imm]
  | .addw => [.aluImm .d32 .add d imm, .extend .movsxd d d]

def rvAluImm (rd rs1 : RegIdx) (imm : BitVec 32) (op : AluImmOp) (pc : Nat) : Lower Unit :=
  rvRoutine rd [] pc fun d => do
    -- `addi rd, x0, imm` is a constant.
    if rs1 = 0 ∧ op = .add then emit [movRi64 d (sext32 imm)]
    else
      rvRead rs1 d pc
      emit (aluImmCode op d imm)

/-- The code of a two-register operation on its destination. -/
def applyAluOp (op : AluOp) (d s : Reg) : List Instr :=
  match op with
  | .add => [aluRR .add d s]
  | .sub => [aluRR .sub d s]
  | .and => [aluRR .and d s]
  | .or => [aluRR .or d s]
  | .xor => [aluRR .xor d s]
  | .mul => [.imul .q64 d s]
  | .addw => [.alu .d32 .add d s, .extend .movsxd d d]
  | .subw => [.alu .d32 .sub d s, .extend .movsxd d d]
  | .mulw => [.imul .d32 d s, .extend .movsxd d d]
  | .min => [aluRR .cmp d s, .cmovcc .g d s]
  | .max => [aluRR .cmp d s, .cmovcc .l d s]
  | .minu => [aluRR .cmp d s, .cmovcc .a d s]
  | .maxu => [aluRR .cmp d s, .cmovcc .b d s]
  | .andn => movRR scratch s ++ [.not64 scratch, aluRR .and d scratch]
  | .orn => movRR scratch s ++ [.not64 scratch, aluRR .or d scratch]
  | .xnor => [aluRR .xor d s, .not64 d]

/-- The second operand of an operation, moved out of the way when loading the first overwrites it. -/
def secondOperand (d : Reg) (r1 r2 : Option Reg) : List Instr × Reg :=
  match r2 with
  | none => ([movRi64 scratch 0], scratch)
  | some r => if d = r ∧ r1 ≠ r2 then (movRR scratch r, scratch) else ([], r)

def rvAluRr (rd rs1 rs2 : RegIdx) (op : AluOp) (pc : Nat) : Lower Unit := do
  match ← rvDst rd pc with
  | none => return
  | some d =>
    if regIsReserved rs1 || regIsReserved rs2 then rvEmitPanicAt pc
    else if op = .add ∧ (rs1 = 0 ∨ rs2 = 0) then
      -- The canonical register move.
      rvRead (if rs1 = 0 then rs2 else rs1) d pc
      invalidateRd rd
      clearAddCf
    else
      let r1 ← rvSrc rs1
      let r2 ← rvSrc rs2
      if op = .sub ∧ rs1 ≠ 0 ∧ rs2 ≠ 0 ∧ rs1 ≠ rs2 ∧ some d = r2 then
        -- The destination already holds the subtrahend.
        emit ([.neg64 d] ++ r1.toList.map (aluRR .add d))
        invalidateRd rd
        clearAddCf
      else
        let (code, b) := secondOperand d r1 r2
        emit code
        rvRead rs1 d pc
        emit (applyAluOp op d b)
        invalidateRd rd
        -- Only a 64-bit addition leaves the carry that a following `sltu` asks for.
        match rvSlot rd, rvSlot rs1, rvSlot rs2 with
        | some dSlot, some aSlot, some bSlot =>
          if op = .add then
            modify fun st => { st with lastAddCf := some (dSlot, aSlot, bSlot) }
        | _, _, _ => return

/-! ## Comparisons -/

/-- The condition of a comparison after `cmp`. -/
def ltCc (signed : Bool) : Cc := if signed then .l else .b

def rvSltImm (rd rs1 : RegIdx) (imm : BitVec 32) (signed : Bool) (pc : Nat) : Lower Unit :=
  rvRoutine rd [rs1] pc fun d => do
    -- A source in the destination is saved, since zeroing the destination comes before `cmp`.
    let (code, src) : List Instr × Reg :=
      match ← rvSrc rs1 with
      | none => ([movRi64 scratch 0], scratch)
      | some r => if d = r then (movRR scratch r, scratch) else ([], r)
    emit (code ++ [movRi64 d 0, aluRi .cmp src imm, .setcc (ltCc signed) d])

def sltCode (signed : Bool) (d : Reg) : Option Reg → Option Reg → List Instr
  | some a, some b =>
    let (code, a', b') : List Instr × Reg × Reg :=
      if d = a ∧ d = b then ([], a, b)
      else if d = a then (movRR scratch a, scratch, b)
      else if d = b then (movRR scratch b, a, scratch)
      else ([], a, b)
    code ++ [movRi64 d 0, aluRR .cmp a' b', .setcc (ltCc signed) d]
  | none, some b =>
    -- `0 < b` after a self-test: greater if signed, nonzero if not.
    let cc : Cc := if signed then .g else .a
    if d = b then
      movRR scratch b ++ [movRi64 d 0, aluRR .test scratch scratch, .setcc cc d]
    else [movRi64 d 0, aluRR .test b b, .setcc cc d]
  | some a, none =>
    if d = a then
      movRR scratch a ++ [movRi64 d 0, aluRi .cmp scratch 0, .setcc (ltCc signed) d]
    else [movRi64 d 0, aluRi .cmp a 0, .setcc (ltCc signed) d]
  | none, none => [movRi64 d 0]

/-- Whether `sltu rd, rs1, rs2` may read the carry of the last addition instead of comparing. -/
def fusesCarry (lastAddCf : Option (HostSlot × HostSlot × HostSlot)) (rd rs1 rs2 : RegIdx) : Bool :=
  match lastAddCf, rvSlot rd, rvSlot rs1, rvSlot rs2 with
  | some (addD, addA, addB), some d, some a, some b =>
    a == addD && b != addD && (b == addA || b == addB) && d != b
  | _, _, _, _ => false

def rvSltRr (rd rs1 rs2 : RegIdx) (signed : Bool) (pc : Nat) : Lower Unit :=
  rvRoutine rd [rs1, rs2] pc fun d => do
    if !signed && fusesCarry (← get).lastAddCf rd rs1 rs2 then
      -- Zeroing with `mov` keeps the carry; the record of the addition is kept as well.
      emit [.movImm32 d 0, .setcc .b d]
    else
      clearAddCf
      emit (sltCode signed d (← rvSrc rs1) (← rvSrc rs2))

/-! ## Shifts -/

/-- The shifts and rotates. -/
inductive ShiftOp where
  | shl64 | shr64 | sar64 | shl32 | shr32 | sar32 | rol64 | ror64 | rol32 | ror32
  deriving DecidableEq, Repr

def ShiftOp.host : ShiftOp → Shift
  | .shl64 | .shl32 => .shl
  | .shr64 | .shr32 => .shr
  | .sar64 | .sar32 => .sar
  | .rol64 | .rol32 => .rol
  | .ror64 | .ror32 => .ror

/-- Whether a shift works on the low half. -/
def ShiftOp.is32 : ShiftOp → Bool
  | .shl32 | .shr32 | .sar32 | .rol32 | .ror32 => true
  | _ => false

/-- The code that clears the upper half before a shift that would move it down. -/
def narrowCode (op : ShiftOp) (d : Reg) : List Instr :=
  if op = .shr32 ∨ op = .ror32 then [.extend .movzx32 d d] else []

def rvShiftImm (rd rs1 : RegIdx) (shamt : BitVec 6) (op : ShiftOp) (pc : Nat) : Lower Unit :=
  rvRoutine rd [] pc fun d => do
    rvRead rs1 d pc
    match op with
    -- No instruction rotates left by an immediate.
    | .rol64 | .rol32 => rvEmitPanicAt pc
    | _ =>
      if op.is32 then
        emit (narrowCode op d
          ++ [.shiftImm .d32 op.host d (shamt &&& 31), .extend .movsxd d d])
      else emit [.shiftImm .q64 op.host d shamt]

/-- Shift by a register, whose count has to be in CL. -/
def emitShiftByReg (size : Size) (op : Shift) (dst count : Reg) : List Instr :=
  if count = .rcx then [.shiftCl size op dst]
  else if dst = .rcx then
    [.push .rcx] ++ movRR .rcx count
      ++ [.pop scratch, .shiftCl size op scratch] ++ movRR .rcx scratch
  else [.push .rcx] ++ movRR .rcx count ++ [.shiftCl size op dst, .pop .rcx]

def rvShiftRr (rd rs1 rs2 : RegIdx) (op : ShiftOp) (pc : Nat) : Lower Unit :=
  rvRoutine rd [rs1, rs2] pc fun d => do
    let (code, count) := secondOperand d (← rvSrc rs1) (← rvSrc rs2)
    emit code
    rvRead rs1 d pc
    if op.is32 then
      emit (narrowCode op d ++ emitShiftByReg .d32 op.host d count ++ [.extend .movsxd d d])
    else emit (emitShiftByReg .q64 op.host d count)

/-! ## Multiplication and division -/

/-- Load the first operand of a product or quotient into RAX, which may have been pushed. -/
def loadRax (r1 : Option Reg) (saved : Option (BitVec 32)) : List Instr :=
  match r1 with
  | none => [movRi64 .rax 0]
  | some r =>
    if r = .rax then saved.toList.map (.load64 .rax .rsp) else movRR .rax r

/-- The second factor: saved in the scratch register when it sits in RAX, which is about to be
overwritten. -/
def factorReg (r2 : Option Reg) : Reg :=
  match r2 with
  | none => scratch
  | some r => if r = .rax then scratch else r

/-- Save RAX and load the factors. -/
def mulPrologue (d : Reg) (r1 r2 : Option Reg) : List Instr :=
  onlyIf (r2 = some .rax) (movRR scratch .rax) ++ onlyIf (d ≠ .rax) [.push .rax]
    ++ loadRax r1 (if d ≠ .rax then some 0 else none) ++ onlyIf (r2 = none) [movRi64 scratch 0]

/-- The mixed product: the unsigned high word, less the second factor when the first is negative. -/
def mulMixed (b : Reg) : Lower Unit := do
  emit [.push b, .push .rax, .mulWide false b, .pop .rax]
  let skip ← newLabel
  emit [aluRR .test .rax .rax]
  emitItems [.jcc .ns skip]
  emit [.pop .rax, aluRR .sub scratch .rax]
  let done ← newLabel
  emitItems [.jmp done, .bind skip]
  emit [aluRi .add .rsp 8]
  emitItems [.bind done]

def rvMulh (rd rs1 rs2 : RegIdx) (aSigned bSigned : Bool) (pc : Nat) : Lower Unit :=
  rvRoutine rd [rs1, rs2] pc fun d => do
    let r1 ← rvSrc rs1
    let r2 ← rvSrc rs2
    emit (mulPrologue d r1 r2)
    (if aSigned && bSigned then emit [.mulWide true (factorReg r2)]
      else if !aSigned && !bSigned then emit [.mulWide false (factorReg r2)]
      else mulMixed (factorReg r2))
    emit (if d ≠ .rax then movRR d scratch ++ [.pop .rax] else movRR .rax scratch)

/-- Whether the divisor is moved to RCX: it has no register, or it sits in RAX. -/
def spillsRcx (r2 : Option Reg) : Bool := r2 = none ∨ r2 = some .rax

def divisorReg (r2 : Option Reg) : Reg :=
  match r2 with
  | none => .rcx
  | some r => if r = .rax then .rcx else r

/-- The code that loads a divisor without a register of its own; RAX may have been pushed first. -/
def divisorCode (d : Reg) (r2 : Option Reg) : List Instr :=
  match r2 with
  | none => [movRi64 .rcx 0]
  | some r =>
    if r = .rax then if d ≠ .rax then [.load64 .rcx .rsp 8] else movRR .rcx .rax else []

/-- Save RAX and RCX as needed, then load the divisor and the dividend. -/
def divPrologue (d : Reg) (r1 r2 : Option Reg) : List Instr :=
  onlyIf (d ≠ .rax) [.push .rax] ++ onlyIf (spillsRcx r2) [.push .rcx] ++ divisorCode d r2
    ++ loadRax r1 (if d ≠ .rax then some (if spillsRcx r2 then 8 else 0) else none)

def opSize (is32 : Bool) : Size := if is32 then .d32 else .q64

/-- Sign extension of a 32-bit result. -/
def widenCode (is32 : Bool) (d : Reg) : List Instr := onlyIf is32 [.extend .movsxd d d]

/-- A divisor of minus one is special-cased, since `idiv` faults on the overflow. -/
def negOneCase (remainder is32 : Bool) (d b : Reg) (join : Label) : Lower Unit := do
  let notNegOne ← newLabel
  emit [.aluImm (opSize is32) .cmp b (-1)]
  emitItems [.jcc .ne notNegOne]
  emit (if remainder then [movRi64 d 0] else movRR d .rax ++ .neg64 d :: widenCode is32 d)
  emitItems [.jmp join, .bind notNegOne]

def divideCode (signed is32 : Bool) (b : Reg) : List Instr :=
  match is32, signed with
  | true, true => [.extend .movsxd .rax .rax, .cdq, .div .d32 true b]
  | true, false => [.extend .movzx32 .rax .rax, movRi64 scratch 0, .div .d32 false b]
  | false, true => [.cqo, .div .q64 true b]
  | false, false => [movRi64 scratch 0, .div .q64 false b]

/-- The case split on the divisor, and the division. -/
def divCore (signed remainder is32 : Bool) (d b : Reg) : Lower Unit := do
  -- The 32-bit forms divide by the low half only, so that is what is tested.
  emit [.alu (opSize is32) .test b b]
  let nonzero ← newLabel
  let join ← newLabel
  emitItems [.jcc .ne nonzero]
  emit (if remainder then movRR d .rax ++ widenCode is32 d else [movRi64 d (-1)])
  emitItems [.jmp join, .bind nonzero]
  (if signed then negOneCase remainder is32 d b join else pure ())
  emit (divideCode signed is32 b
    ++ (movRR d (if remainder then scratch else .rax) ++ widenCode is32 d))
  emitItems [.bind join]

/-- Restore what the prologue saved. -/
def divEpilogue (d : Reg) (r2 : Option Reg) : List Instr :=
  onlyIf (spillsRcx r2) [.pop .rcx] ++ onlyIf (d ≠ .rax) [.pop .rax]

def rvDivRem (rd rs1 rs2 : RegIdx) (signed remainder is32 : Bool) (pc : Nat) : Lower Unit :=
  rvRoutine rd [rs1, rs2] pc fun d => do
    let r1 ← rvSrc rs1
    let r2 ← rvSrc rs2
    emit (divPrologue d r1 r2)
    divCore signed remainder is32 d (divisorReg r2)
    emit (divEpilogue d r2)

/-! ## Unary operations, shift-and-add and single bits -/

/-- The low seven bits of every byte. -/
def lo7 : Word64 := 0x7F7F7F7F7F7F7F7F

/-- The high bit of every byte. -/
def hi1 : Word64 := 0x8080808080808080

/-- The unary operations on host registers. -/
inductive UnaryOp where
  | clz64 | clz32 | ctz64 | ctz32 | popcnt64 | popcnt32 | sextB | sextH | zextH | rev8 | orcB
  deriving DecidableEq, Repr

def unaryCode (op : UnaryOp) (d src : Reg) : List Instr :=
  match op with
  | .clz64 => [.count .q64 .lzcnt d src]
  | .clz32 => [.count .d32 .lzcnt d src]
  | .ctz64 => [.count .q64 .tzcnt d src]
  | .ctz32 => [.count .d32 .tzcnt d src]
  | .popcnt64 => [.count .q64 .popcnt d src]
  | .popcnt32 => [.count .d32 .popcnt d src]
  | .sextB => [.extend .movsx8 d src]
  | .sextH => [.extend .movsx16 d src]
  | .zextH => [.extend .movzx16 d src]
  | .rev8 => movRR d src ++ [.bswap64 d]
  | .orcB =>
    -- The high bit of each byte of `((x & lo7) + lo7) | x` says whether the byte is nonzero.
    movRR scratch src ++ [.push scratch, movRi64 d lo7, aluRR .and d scratch, movRi64 scratch lo7,
      aluRR .add d scratch, .pop scratch, aluRR .or d scratch, movRi64 scratch hi1,
      aluRR .and d scratch, .push d] ++ movRR scratch d
      ++ [.shiftImm .q64 .shr scratch 7, aluRR .sub d scratch, .pop scratch, aluRR .or d scratch]

def rvUnary (rd rs1 : RegIdx) (op : UnaryOp) (pc : Nat) : Lower Unit :=
  rvRoutine rd [rs1] pc fun d => do
    match ← rvSrc rs1 with
    | none => emit ([movRi64 scratch 0] ++ unaryCode op d scratch)
    | some src => emit (unaryCode op d src)

/-- Load the shifted operand of a shift-and-add into the scratch register. -/
def scaledCode (uw : Bool) : Option Reg → List Instr
  | none => [movRi64 scratch 0]
  | some r => if uw then [.extend .movzx32 scratch r] else movRR scratch r

/-- Load an operand into a host register. -/
def readCodeOf (d : Reg) : Option Reg → List Instr
  | none => [movRi64 d 0]
  | some r => movRR d r

def rvShadd (rd rs1 rs2 : RegIdx) (shift : BitVec 6) (uw : Bool) (pc : Nat) : Lower Unit :=
  rvRoutine rd [rs1, rs2] pc fun d => do
    emit (scaledCode uw (← rvSrc rs1) ++ [.shiftImm .q64 .shl scratch shift]
      ++ readCodeOf d (← rvSrc rs2) ++ [aluRR .add d scratch])

/-- Addition of a zero-extended operand. -/
def rvAdduw (rd rs1 rs2 : RegIdx) (pc : Nat) : Lower Unit :=
  rvRoutine rd [rs1, rs2] pc fun d => do
    emit (scaledCode true (← rvSrc rs1) ++ readCodeOf d (← rvSrc rs2)
      ++ [aluRR .add d scratch])

/-- Left shift of a zero-extended operand. -/
def rvSlliuw (rd rs1 : RegIdx) (shamt : BitVec 6) (pc : Nat) : Lower Unit :=
  rvRoutine rd [rs1] pc fun d => do
    match ← rvSrc rs1 with
    | none => emit [movRi64 d 0]
    | some r => emit [.extend .movzx32 d r, .shiftImm .q64 .shl d shamt]

/-- The single-bit operations. -/
inductive BitOp where
  | clear | set | invert | extract
  deriving DecidableEq, Repr

/-- Apply a mask in the scratch register to the destination. -/
def bitMaskCode (op : BitOp) (d : Reg) : List Instr :=
  match op with
  | .clear => [.not64 scratch, aluRR .and d scratch]
  | .set => [aluRR .or d scratch]
  | .invert => [aluRR .xor d scratch]
  -- `mov` zeroes the destination without touching the flags of `test`.
  | .extract => [aluRR .test d scratch, .movImm32 d 0, .setcc .ne d]

/-- Shift the mask in the scratch register by the position. -/
def maskShiftCode (r2 : Option Reg) : List Instr :=
  match r2 with
  | none => []
  | some r =>
    if r = .rcx then [.shiftCl .q64 .shl scratch]
    else [.push .rcx] ++ movRR .rcx r ++ [.shiftCl .q64 .shl scratch, .pop .rcx]

/-- Single-bit operation with the position in a register. -/
def rvBitRr (rd rs1 rs2 : RegIdx) (op : BitOp) (pc : Nat) : Lower Unit :=
  rvRoutine rd [rs1, rs2] pc fun d => do
    emit ([movRi64 scratch 1] ++ maskShiftCode (← rvSrc rs2))
    rvRead rs1 d pc
    emit (bitMaskCode op d)

/-- The code of a single-bit operation at a fixed position, once the operand is loaded. -/
def bitImmCode (op : BitOp) (d : Reg) (shamt : BitVec 6) : List Instr :=
  let mask : BitVec 32 := 1#32 <<< shamt.toNat
  match op with
  | .extract => [.shiftImm .q64 .shr d shamt, aluRi .and d 1]
  | _ =>
    -- A mask below the sign bit fits the immediate.
    if shamt.toNat < 31 then
      match op with
      | .clear => [aluRi .and d (~~~mask)]
      | .set => [aluRi .or d mask]
      | _ => [aluRi .xor d mask]
    else bitMaskCode op d

/-- Single-bit operation at a fixed position. -/
def rvBitImm (rd rs1 : RegIdx) (shamt : BitVec 6) (op : BitOp) (pc : Nat) : Lower Unit :=
  rvRoutine rd [rs1] pc fun d => do
    emit (onlyIf (31 ≤ shamt.toNat) [movRi64 scratch (1#64 <<< shamt.toNat)])
    rvRead rs1 d pc
    emit (bitImmCode op d shamt)

/-- Conditional zero: `eqz` zeroes on a zero condition, its opposite on a nonzero one. -/
def rvCzero (rd rs1 rs2 : RegIdx) (eqz : Bool) (pc : Nat) : Lower Unit :=
  rvRoutine rd [rs1, rs2] pc fun d => do
    if rs2 = 0 then
      if eqz then emit [movRi64 d 0] else rvRead rs1 d pc
    else if rs1 = 0 then emit [movRi64 d 0]
    else if rs1 = rs2 then
      if eqz then rvRead rs1 d pc else emit [movRi64 d 0]
    else
      let r1 ← unwrap (hostReg rs1)
      let r2 ← unwrap (hostReg rs2)
      let cond : Cc := if eqz then .e else .ne
      let opposite : Cc := if eqz then .ne else .e
      if d = r1 then
        emit [aluRR .test r2 r2, .movImm32 scratch 0, .cmovcc cond d scratch]
      else emit [aluRR .test r2 r2, .movImm32 d 0, .cmovcc opposite d r1]

end Jar.Recompiler
