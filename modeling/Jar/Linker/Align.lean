import Jar.Lib.Attempt
import Jar.Lib.SortedMap
import Jar.Linker.Validate

/-! The linker's injection of fallthrough instructions before branch targets, so that every target
starts a gas block. -/

namespace Jar.Linker

/-- A pass that may fail with an error, or panic. -/
abbrev Pass := Attempt LinkError

/-! ## Bytes -/

/-- The bytes of a halfword, least significant first. -/
def halfBytes (h : BitVec 16) : List Byte := [h.extractLsb' 0 8, h.extractLsb' 8 8]

def wordBytes (w : BitVec 32) : List Byte :=
  [w.extractLsb' 0 8, w.extractLsb' 8 8, w.extractLsb' 16 8, w.extractLsb' 24 8]

/-- Read a halfword; reading past the end panics. -/
def readHalf (code : List Byte) (pc : Nat) : Pass (BitVec 16) :=
  match code.drop pc with
  | b0 :: b1 :: _ => pure (b1 ++ b0)
  | _ => Attempt.crash

/-- Read a word; reading past the end panics. -/
def readWord (code : List Byte) (pc : Nat) : Pass (BitVec 32) :=
  match code.drop pc with
  | b0 :: b1 :: b2 :: b3 :: _ => pure (b3 ++ b2 ++ b1 ++ b0)
  | _ => Attempt.crash

def splice (code : List Byte) (pc : Nat) (bytes : List Byte) : List Byte :=
  code.take pc ++ (bytes ++ code.drop (pc + bytes.length))

def encodeCustom0Fallthrough : BitVec 32 := 0b100 <<< 12 ||| 0b0001011

/-! ## Immediates -/

/-- Put an immediate into a JAL word. -/
def encodeJImm (w v : BitVec 32) : BitVec 32 :=
  let rd := (w >>> 7) &&& 0x1F
  let b20 := (v >>> 20) &&& 0x1
  let b10_1 := (v >>> 1) &&& 0x3FF
  let b11 := (v >>> 11) &&& 0x1
  let b19_12 := (v >>> 12) &&& 0xFF
  let immField := (b20 <<< 31) ||| (b10_1 <<< 21) ||| (b11 <<< 20) ||| (b19_12 <<< 12)
  immField ||| (rd <<< 7) ||| 0b1101111

/-- Put an immediate into a branch word. -/
def encodeBImm (opcodeAndRegs v : BitVec 32) : BitVec 32 :=
  let b12 := (v >>> 12) &&& 0x1
  let b11 := (v >>> 11) &&& 0x1
  let b10_5 := (v >>> 5) &&& 0x3F
  let b4_1 := (v >>> 1) &&& 0xF
  let cleared := opcodeAndRegs &&& 0x01FFF07F
  cleared ||| (b12 <<< 31) ||| (b10_5 <<< 25) ||| (b4_1 <<< 8) ||| (b11 <<< 7)

/-- Put an immediate into a compressed branch, where it is even and in range. -/
def encodeCbImm (h : BitVec 16) (v : BitVec 32) : Option (BitVec 16) :=
  if ¬ (-2 ^ 8 ≤ v.toInt ∧ v.toInt < 2 ^ 8) then none
  else if v &&& 1 ≠ 0 then none
  else
    let b8 := (v >>> 8) &&& 0x1
    let b7_6 := (v >>> 6) &&& 0x3
    let b5 := (v >>> 5) &&& 0x1
    let b4_3 := (v >>> 3) &&& 0x3
    let b2_1 := (v >>> 1) &&& 0x3
    let preserved := h.zeroExtend 32 &&& 0b1110001110000011
    let newImm := (b8 <<< 12) ||| (b4_3 <<< 10) ||| (b7_6 <<< 5) ||| (b2_1 <<< 3) ||| (b5 <<< 2)
    some ((preserved ||| newImm).setWidth 16)

/-- Put an immediate into a compressed jump, where it is even and in range. -/
def encodeCjImm (h : BitVec 16) (v : BitVec 32) : Option (BitVec 16) :=
  if ¬ (-2 ^ 11 ≤ v.toInt ∧ v.toInt < 2 ^ 11) then none
  else if v &&& 1 ≠ 0 then none
  else
    let b11 := (v >>> 11) &&& 0x1
    let b10 := (v >>> 10) &&& 0x1
    let b9_8 := (v >>> 8) &&& 0x3
    let b7 := (v >>> 7) &&& 0x1
    let b6 := (v >>> 6) &&& 0x1
    let b5 := (v >>> 5) &&& 0x1
    let b4 := (v >>> 4) &&& 0x1
    let b3_1 := (v >>> 1) &&& 0x7
    let preserved := h.zeroExtend 32 &&& 0b1110000000000011
    let newImm := (b11 <<< 12) ||| (b4 <<< 11) ||| (b9_8 <<< 9) ||| (b10 <<< 8) ||| (b6 <<< 7)
      ||| (b7 <<< 6) ||| (b3_1 <<< 3) ||| (b5 <<< 2)
    some ((preserved ||| newImm).setWidth 16)

/-! ## Pass 1: instructions, terminators and static edges -/

/-- Whether a compressed instruction ends a block, and its static target. -/
def classifyHalf (pc : Nat) (lo : BitVec 16) : Bool × Option Int :=
  let op := lo.extractLsb' 0 2
  let f3 := cFunct3 lo
  if lo = 0 then (true, none)
  else if op = 0b01#2 ∧ f3 = 0b101#3 then (true, some (pc + (decodeCjImm lo).toInt))
  else if op = 0b01#2 ∧ (f3 = 0b110#3 ∨ f3 = 0b111#3) then
    (true, some (pc + (decodeCbImm lo).toInt))
  else if op = 0b10#2 ∧ f3 = 0b100#3 then
    let bit12 := lo.extractLsb' 12 1
    let rdrs1 : RegIdx := lo.extractLsb' 7 5
    let rs2 : RegIdx := lo.extractLsb' 2 5
    (rs2 = 0 ∧ (bit12 = 1#1 ∨ rdrs1 ≠ 0), none)
  else (false, none)

/-- Whether a 4-byte instruction ends a block, and its static target. -/
def classifyWord (pc : Nat) (w : BitVec 32) : Bool × Option Int :=
  match w.extractLsb' 0 7 with
  | 0b1101111#7 => (true, some (pc + (immJ w).toInt))
  | 0b1100111#7 => (true, none)
  | 0b1100011#7 => (true, some (pc + (immB w).toInt))
  | 0b0001011#7 => (true, none)
  | _ => (false, none)

/-- What the first pass collects. -/
structure Scan where
  /-- The offsets of the instructions. -/
  instStarts : List Nat
  /-- The offsets behind terminators. -/
  postTerminator : List Nat
  /-- The jumps and branches with their targets. -/
  staticEdges : List (Nat × Nat)

/-- Put an instruction before the ones that were collected behind it. -/
def Scan.push (n pc instLen : Nat) (kind : Bool × Option Int) (s : Scan) : Scan where
  instStarts := pc :: s.instStarts
  postTerminator :=
    if kind.1 ∧ pc + instLen < n then (pc + instLen) :: s.postTerminator else s.postTerminator
  staticEdges :=
    match kind.2 with
    | some t => if 0 ≤ t ∧ t < n then (pc, t.toNat) :: s.staticEdges else s.staticEdges
    | none => s.staticEdges

/-- Collect the instructions from an offset on. -/
def scanFrom (n : Nat) : Nat → List Byte → Pass Scan
  | _, [] => pure ⟨[], [], []⟩
  | _, [_] => Attempt.crash
  | pc, b0 :: b1 :: rest =>
    let lo := b1 ++ b0
    if lo.extractLsb' 0 2 ≠ 0b11#2 then
      Scan.push n pc 2 (classifyHalf pc lo) <$> scanFrom n (pc + 2) rest
    else
      match rest with
      | b2 :: b3 :: rest =>
        Scan.push n pc 4 (classifyWord pc (b3 ++ b2 ++ b1 ++ b0)) <$> scanFrom n (pc + 4) rest
      -- A cut-off instruction ends the walk, but counts as one.
      | _ => pure ⟨[pc], [], []⟩

/-! ## Pass 2: where to inject -/

/-- Add a target that is an instruction and not behind a terminator. -/
def addTarget (s : Scan) (set : SortedMap Nat Unit) (target : Nat) : SortedMap Nat Unit :=
  -- Offset 0 always starts a block.
  if target ∉ 0 :: s.postTerminator ∧ target ∈ s.instStarts then set.insert target () else set

/-- The offsets that need an injection: static targets and the caller's extra ones. -/
def needsInject (n : Nat) (s : Scan) (extraTargets : List Nat) : SortedMap Nat Unit :=
  let static := (s.staticEdges.map (·.2)).foldl (addTarget s) SortedMap.empty
  (extraTargets.filter (· < n)).foldl (addTarget s) static

/-! ## Pass 3: the new layout -/

/-- Emit a fallthrough for each pending injection at an offset. -/
def inject (oldPc : Nat) : List Nat → List Byte → List Nat × List Byte
  | [], newCode => ([], newCode)
  | p :: pending, newCode =>
    if p = oldPc then inject oldPc pending (newCode ++ wordBytes encodeCustom0Fallthrough)
    else (p :: pending, newCode)

/-- Copy the instructions at the given offsets behind the injections before them. -/
def layout (code : List Byte) :
    List Nat → List Nat → List Byte → SortedMap Nat Nat → List Byte × SortedMap Nat Nat
  | [], _, newCode, offsetMap => (newCode, offsetMap)
  | oldPc :: starts, pending, newCode, offsetMap =>
    let (pending, newCode) := inject oldPc pending newCode
    let offsetMap := offsetMap.insert oldPc newCode.length
    let nextPc := starts.headD code.length
    layout code starts pending (newCode ++ (code.drop oldPc).take (nextPc - oldPc)) offsetMap

/-! ## Pass 4: the new immediates -/

/-- A signed offset as an index; a negative one wraps around. -/
def asUsize (x : Int) : Nat := if x < 0 then (x + 2 ^ 64).toNat else x.toNat

/-- Adjust a compressed jump; `name` and `range` are for the errors. -/
def relocateCompressed (name range : String) (decodeImm : BitVec 16 → BitVec 32)
    (encodeImm : BitVec 16 → BitVec 32 → Option (BitVec 16)) (offsetMap : SortedMap Nat Nat)
    (oldPc newPc : Nat) (lo : BitVec 16) : Pass (BitVec 16) :=
  let oldImm := (decodeImm lo).toInt
  let oldTarget := asUsize (oldPc + oldImm)
  match offsetMap.lookup oldTarget with
  | none =>
    throw (.invalidSection ("align_branch_targets: " ++ name ++ " old target " ++ hex oldTarget
      ++ " not in offset_map"))
  | some newTarget =>
    let newImm : Int := newTarget - newPc
    if newImm ≠ oldImm then
      match encodeImm lo (BitVec.ofInt 32 newImm) with
      | some newH => pure newH
      | none =>
        throw (.invalidSection ("align_branch_targets: " ++ name ++ " at new_pc " ++ hex newPc
          ++ " new_imm " ++ toString newImm ++ " out of " ++ range ++ " range"))
    else pure lo

/-- Adjust a 2-byte instruction. -/
def relocateHalf (offsetMap : SortedMap Nat Nat) (oldPc newPc : Nat) (lo : BitVec 16) :
    Pass (BitVec 16) :=
  let op := lo.extractLsb' 0 2
  let f3 := cFunct3 lo
  if op = 0b01#2 ∧ f3 = 0b101#3 then
    relocateCompressed "c.j" "±2 KiB" decodeCjImm encodeCjImm offsetMap oldPc newPc lo
  else if op = 0b01#2 ∧ (f3 = 0b110#3 ∨ f3 = 0b111#3) then
    relocateCompressed "c.beqz/c.bnez" "±256 byte" decodeCbImm encodeCbImm offsetMap oldPc newPc lo
  else pure lo

/-- Adjust a jump of 4 bytes with immediates of `bits` bits; a target that is no instruction is
left alone. -/
def relocateFull (name range : String) (bits : Nat) (decodeImm : BitVec 32 → BitVec 32)
    (encodeImm : BitVec 32 → BitVec 32 → BitVec 32) (offsetMap : SortedMap Nat Nat)
    (oldPc newPc : Nat) (w : BitVec 32) : Pass (BitVec 32) :=
  match offsetMap.lookup (asUsize (oldPc + (decodeImm w).toInt)) with
  | none => pure w
  | some newTarget =>
    let newImm : Int := newTarget - newPc
    if ¬ (-2 ^ bits ≤ newImm ∧ newImm < 2 ^ bits) then
      throw (.invalidSection ("align_branch_targets: " ++ name ++ " at new_pc " ++ hex newPc
        ++ " out of " ++ range ++ " range after injection (new_imm = " ++ toString newImm ++ ")"))
    else pure (encodeImm w (BitVec.ofInt 32 newImm))

/-- Adjust a 4-byte instruction. -/
def relocateWord (offsetMap : SortedMap Nat Nat) (oldPc newPc : Nat) (w : BitVec 32) :
    Pass (BitVec 32) :=
  match w.extractLsb' 0 7 with
  | 0b1101111#7 => relocateFull "JAL" "±1 MiB" 20 immJ encodeJImm offsetMap oldPc newPc w
  | 0b1100011#7 => relocateFull "B-type branch" "±4 KiB" 12 immB encodeBImm offsetMap oldPc newPc w
  | _ => pure w

/-- Adjust the instruction that was at an offset, in the new code. -/
def relocateAt (offsetMap : SortedMap Nat Nat) (newCode : List Byte) (oldPc : Nat) :
    Pass (List Byte) :=
  match offsetMap.lookup oldPc with
  | none => Attempt.crash
  | some newPc => do
    let lo ← readHalf newCode newPc
    if lo.extractLsb' 0 2 ≠ 0b11#2 then do
      let h ← relocateHalf offsetMap oldPc newPc lo
      return splice newCode newPc (halfBytes h)
    else do
      let w ← readWord newCode newPc
      let w ← relocateWord offsetMap oldPc newPc w
      return splice newCode newPc (wordBytes w)

/-- Inject fallthroughs before branch targets; the new code and where each instruction went. -/
def alignBranchTargets (code : List Byte) (extraTargets : List Nat) :
    Pass (List Byte × SortedMap Nat Nat) := do
  let s ← scanFrom code.length 0 code
  let inject := needsInject code.length s extraTargets
  if inject.entries = [] then
    return (code, s.instStarts.foldl (fun map p => map.insert p p) SortedMap.empty)
  else do
    let (newCode, offsetMap) :=
      layout code s.instStarts (inject.entries.map (·.1)) [] SortedMap.empty
    let newCode ← s.instStarts.foldlM (relocateAt offsetMap) newCode
    return (newCode, offsetMap)

end Jar.Linker
