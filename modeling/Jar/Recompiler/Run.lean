import Jar.Recompiler.Lower

/-! Execution of emitted items, whose jumps only go forward or leave the sequence. -/

namespace Jar.Recompiler

open X86

/-- How execution leaves a sequence of items. -/
inductive Leave where
  /-- Off the end. -/
  | fall (m : Machine)
  /-- To a label that is not bound in the rest of the sequence. -/
  | label (l : Label) (m : Machine)
  | va (va : Word64) (m : Machine)
  | ret (m : Machine)
  /-- On a guest page fault. -/
  | pageFault (addr : BitVec 32) (m : Machine)
  | divideError
  /-- In a way the model leaves open. -/
  | undefined

/-- Execute items, skipping to a label after a jump. -/
def runFrom (env : Env) : Option Label → List Item → Machine → Leave
  | none, [], m => .fall m
  | some l, [], m => .label l m
  | some l, .bind l' :: rest, m => runFrom env (if l = l' then none else some l) rest m
  | some l, _ :: rest, m => runFrom env (some l) rest m
  | none, .ins i :: rest, m =>
    match exec env m i with
    | .next m => runFrom env none rest m
    | .jump _ _ | .undefined => .undefined
    | .jumpVa m va => .va va m
    | .ret m => .ret m
    | .pageFault m addr => .pageFault addr m
    | .divideError => .divideError
  | none, .newLabel :: rest, m | none, .bind _ :: rest, m | none, .trapEntry _ _ :: rest, m =>
    runFrom env none rest m
  | none, .jmp l :: rest, m => runFrom env (some l) rest m
  | none, .guest kind none target _ :: rest, m => runFrom env (some (kind.label target)) rest m
  | none, .jcc cc l :: rest, m =>
    match cc.eval m.flags with
    | some taken => runFrom env (if taken then some l else none) rest m
    | none => .undefined
  | none, .guest kind (some cc) target _ :: rest, m =>
    match cc.eval m.flags with
    | some taken => runFrom env (if taken then some (kind.label target) else none) rest m
    | none => .undefined

def run (env : Env) (items : List Item) (m : Machine) : Leave := runFrom env none items m

def skipTo (env : Env) (l : Label) (items : List Item) (m : Machine) : Leave :=
  runFrom env (some l) items m

/-- The guest registers held by a machine: the mapped ones in host registers, the spilled ones in
their homes. -/
def guestRegs (m : Machine) : Regs := fun slot =>
  if mapped : slot.val < 13 then m.regs (regMap ⟨slot.val, mapped⟩) else m.ctx.regs slot

/-- The value of a resolved source. -/
def srcVal (m : Machine) (r : Option Reg) : Word64 := r.elim 0 m.regs

end Jar.Recompiler
