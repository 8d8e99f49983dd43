import Jar.Proofs.BlockWalk
import Jar.Proofs.Fetch
import Jar.Proofs.Returns

/-! What assembling keeps of the emitted code and its labels, and the gates of the blocks in that
code. -/

namespace Jar.X86

theorem Instr.len_pos (i : Instr) : 0 < i.len := by
  unfold Instr.len
  split <;> (try split) <;> omega

namespace Asm

/-- The code grows at its end, the labels below a bound stay as they are, and the labels that have
been handed out stay in the table. -/
structure Extends (base : Nat) (asm asm' : Asm) : Prop where
  code : ∃ more, asm'.code = asm.code ++ more
  labels : ∀ l < base, asm'.labels l = asm.labels l
  handed : asm.labelsLen ≤ asm'.labelsLen
  table : asm.tableLen ≤ asm'.tableLen
  sized : asm.labelsLen ≤ asm.tableLen → asm'.labelsLen ≤ asm'.tableLen

section

variable {base : Nat} {asm asm' asm'' : Asm}

theorem Extends.refl (asm : Asm) : Extends base asm asm :=
  ⟨⟨[], (List.append_nil _).symm⟩, fun _ _ => rfl, Nat.le_refl _, Nat.le_refl _, id⟩

theorem Extends.trans (first : Extends base asm asm') (second : Extends base asm' asm'') :
    Extends base asm asm'' := by
  obtain ⟨more, code⟩ := first.code
  obtain ⟨more', code'⟩ := second.code
  exact
    { code := ⟨more ++ more', by rw [code', code, List.append_assoc]⟩
      labels := fun l below => (second.labels l below).trans (first.labels l below)
      handed := first.handed.trans second.handed
      table := first.table.trans second.table
      sized := fun sized => second.sized (first.sized sized) }

theorem extends_emit (i : Instr) : Extends base asm (asm.emit i) :=
  ⟨⟨[i], rfl⟩, fun _ _ => rfl, Nat.le_refl _, Nat.le_refl _, id⟩

theorem extends_newLabel : Extends base asm asm.newLabel.2 :=
  ⟨⟨[], (List.append_nil _).symm⟩, fun _ _ => rfl, Nat.le_succ _, Nat.le_max_left _ _,
    fun _ => Nat.le_max_right _ _⟩

theorem bindLabel_of_lt {l : Nat} (known : l < asm.tableLen) : asm.bindLabel l =
    some { asm with labels := Function.update asm.labels l (stored asm.offset) } :=
  if_pos known

theorem extends_bindLabel {l : Nat} (above : base ≤ l) (known : l < asm.tableLen) :
    ∃ asm', asm.bindLabel l = some asm' ∧ Extends base asm asm' ∧
      asm'.labelsLen = asm.labelsLen := by
  refine ⟨_, bindLabel_of_lt known, ?_, rfl⟩
  exact
    { code := ⟨[], (List.append_nil _).symm⟩
      labels := fun _ below => Function.update_of_ne (Nat.ne_of_lt (Nat.lt_of_lt_of_le below above))
        _ _
      handed := Nat.le_refl _
      table := Nat.le_refl _
      sized := id }

/-- A jump to a label of the table is emitted, in its short or its long form. -/
theorem jumpLabel_of_lt (make : Bool → BitVec 32 → Instr) {l : Nat} (known : l < asm.tableLen) :
    ∃ short rel fixups, asm.jumpLabel make l =
      some { asm with code := asm.code ++ [make short rel], fixups } := by
  unfold jumpLabel lookup
  rw [if_pos known]
  cases asm.labels l with
  | none => exact ⟨false, 0, _, rfl⟩
  | some target =>
    simp only [Option.bind_eq_bind, Option.bind_some]
    split
    · exact ⟨true, _, asm.fixups, rfl⟩
    · exact ⟨false, _, asm.fixups, rfl⟩

theorem extends_jumpLabel (make : Bool → BitVec 32 → Instr) {l : Nat}
    (known : l < asm.tableLen) : ∃ asm', asm.jumpLabel make l = some asm' ∧
      Extends base asm asm' ∧ asm'.labelsLen = asm.labelsLen := by
  obtain ⟨short, rel, fixups, jumped⟩ := jumpLabel_of_lt make known
  exact ⟨_, jumped, ⟨⟨_, rfl⟩, fun _ _ => rfl, Nat.le_refl _, Nat.le_refl _, id⟩, rfl⟩

end

end Asm

end Jar.X86

namespace Jar.Recompiler

open X86 Lower

/-! ## Assembling -/

namespace Compiler

section

variable {c : Compiler} {base table : Nat}

theorem extends_jumpTo {asm : Asm} (cc : Option Cc) {l : Nat} (known : l < asm.tableLen) :
    ∃ asm', jumpTo asm cc l = some asm' ∧ asm.Extends base asm' ∧
      asm'.labelsLen = asm.labelsLen := by
  cases cc with
  | none => exact Asm.extends_jumpLabel .jmp known
  | some cc => exact Asm.extends_jumpLabel (fun short rel => .jcc short cc rel) known

theorem assembleItem_placed (sized : c.asm.labelsLen ≤ c.asm.tableLen)
    (enough : table ≤ c.asm.tableLen) {item : Item}
    (placed : item.Placed base table c.asm.labelsLen) :
    ∃ c', c.assembleItem item = some c' ∧ c.asm.Extends base c'.asm ∧
      c'.asm.labelsLen = c.asm.labelsLen + item.newLabels := by
  cases item with
  | ins i => exact ⟨_, rfl, Asm.extends_emit i, rfl⟩
  | newLabel => exact ⟨_, rfl, Asm.extends_newLabel, rfl⟩
  | bind l =>
    obtain ⟨asm, bound, extends', same⟩ := Asm.extends_bindLabel placed.1
      (Nat.lt_of_lt_of_le placed.2 sized)
    exact ⟨{ c with asm }, by rw [assembleItem, bound]; rfl, extends', same⟩
  | jmp l | jcc cc l =>
    obtain ⟨asm, jumped, extends', same⟩ := extends_jumpTo _ (Nat.lt_of_lt_of_le placed sized)
    exact ⟨{ c with asm }, by rw [assembleItem, jumped]; rfl, extends', same⟩
  | guest kind cc target pc =>
    obtain ⟨asm, jumped, extends', same⟩ := extends_jumpTo cc
      (Nat.lt_of_lt_of_le placed (max_le sized enough))
    exact ⟨_, by rw [assembleItem, jumped]; rfl, extends', same⟩
  | trapEntry pc width => exact ⟨_, rfl, .refl _, rfl⟩

/-- What fits is assembled, item by item. -/
theorem assemble_fits {items : List Item} (sized : c.asm.labelsLen ≤ c.asm.tableLen)
    (enough : table ≤ c.asm.tableLen) (fits : Fits base table c.asm.labelsLen items) :
    ∃ c', c.assemble items = some c' ∧ c.asm.Extends base c'.asm := by
  induction items generalizing c with
  | nil => exact ⟨c, rfl, .refl _⟩
  | cons item items ih =>
    obtain ⟨c₁, first, extends₁, labels⟩ := assembleItem_placed sized enough fits.1
    obtain ⟨c₂, rest, extends₂⟩ := ih (extends₁.sized sized) (enough.trans extends₁.table)
      (labels ▸ fits.2)
    exact ⟨c₂, by rw [assemble, List.foldlM_cons, first]; exact rest, extends₁.trans extends₂⟩

theorem dispatch_returns {α : Type} {d : Dispatch α} {low : Nat} (returns : Returns base table low d)
    (handed : low ≤ c.asm.labelsLen) (sized : c.asm.labelsLen ≤ c.asm.tableLen)
    (enough : table ≤ c.asm.tableLen) :
    ∃ r c', c.dispatch d = some (r, c') ∧ c.asm.Extends base c'.asm := by
  obtain ⟨⟨r, gas⟩, st, items, ran, appended, -, fits⟩ := returns c.gas
    ⟨c.regDefs, c.lastAddCf, c.asm.labelsLen, []⟩ handed
  rw [List.nil_append] at appended
  obtain ⟨c', assembled, extends'⟩ := @assemble_fits
    { c with gas, regDefs := st.regDefs, lastAddCf := st.lastAddCf } base table st.items sized enough
    (appended.symm ▸ fits)
  refine ⟨r, c', ?_, extends'⟩
  simp only [dispatch, ran, Option.bind_eq_bind, Option.bind_some, assembled]
  rfl

end

end Compiler

/-! ## Gates -/

/-- The code of a gate: what the balance is compared with, and what is deducted from it. -/
def gateCode (compared deducted : BitVec 32) (short : Bool) (rel : BitVec 32) : List Instr :=
  [.aluPatch .cmp gasReg compared, .jcc short .l rel, .aluPatch .sub gasReg deducted]

/-- The two immediates of the gate at the head of the code. -/
def gateAtHead : List Instr → Option (BitVec 32 × BitVec 32)
  | .aluPatch .cmp r compared :: .jcc _ .l _ :: .aluPatch .sub r' deducted :: _ =>
    if r = gasReg ∧ r' = gasReg then some (compared, deducted) else none
  | _ => none

/-- The gates in the code with the offsets they stand at. -/
def gatesIn : Nat → List Instr → List (Nat × BitVec 32 × BitVec 32)
  | _, [] => []
  | pos, i :: rest =>
    ((gateAtHead (i :: rest)).map fun gate => (pos, gate)).toList ++ gatesIn (pos + i.len) rest

/-- What the gate of a block compares the balance with. -/
def compared (g : BlockGate) : BitVec 32 := BitVec.ofNat 32 (min (g.cost + g.reserve) u32Max)

/-- What the gate of a block deducts. -/
def deducted (g : BlockGate) : BitVec 32 := BitVec.ofNat 32 g.cost

/-- The gate of a block stands in the code where the label of the block is bound. -/
def HasGate (code : List Instr) (labels : Label → Option Nat) (g : BlockGate) : Prop :=
  ∃ left short rel right, code = left ++ gateCode (compared g) (deducted g) short rel ++ right ∧
    labels (labelBase + g.pc) = Asm.stored (Layout.size Instr.len left)

theorem mem_gatesIn (left right : List Instr) (a b : BitVec 32) (short : Bool) (rel : BitVec 32)
    (pos : Nat) :
    (pos + Layout.size Instr.len left, a, b) ∈ gatesIn pos (left ++ gateCode a b short rel ++ right) := by
  induction left generalizing pos with
  | nil => simp [gateCode, gatesIn, gateAtHead]
  | cons i left ih =>
    refine List.mem_append_right _ ?_
    rw [Layout.size_cons, ← Nat.add_assoc]
    exact ih (pos + i.len)

theorem HasGate.mem {code : List Instr} {labels : Label → Option Nat} {g : BlockGate}
    (gate : HasGate code labels g) : ∃ e ∈ gatesIn 0 code,
      labels (labelBase + g.pc) = Asm.stored e.1 ∧ e.2 = (compared g, deducted g) := by
  obtain ⟨left, short, rel, right, rfl, bound⟩ := gate
  refine ⟨_, mem_gatesIn left right _ _ short rel 0, ?_, rfl⟩
  rw [bound, Nat.zero_add]

theorem HasGate.append {code : List Instr} {labels labels' : Label → Option Nat} {g : BlockGate}
    (gate : HasGate code labels g) (more : List Instr)
    (same : labels' (labelBase + g.pc) = labels (labelBase + g.pc)) :
    HasGate (code ++ more) labels' g := by
  obtain ⟨left, short, rel, right, rfl, bound⟩ := gate
  exact ⟨left, short, rel, right ++ more, by simp, same.trans bound⟩

section

variable (asm : Asm) (left right : List Instr) (a b v : BitVec 32) (short : Bool) (rel : BitVec 32)

/-- Patching the comparison of a gate changes nothing else. -/
theorem patchI32_compared (code : asm.code = left ++ gateCode a b short rel ++ right) {offset : Nat}
    (here : offset + 4 = Layout.size Instr.len left + 7) :
    asm.patchI32 offset v = { asm with code := left ++ gateCode v b short rel ++ right } := by
  have patched := Layout.modifyEnding_append Instr.len_pos (Instr.setField v) 0 left
    (.aluPatch .cmp gasReg a) (.jcc short .l rel :: .aluPatch .sub gasReg b :: right)
  rw [Nat.zero_add, Instr.len, ← here] at patched
  rw [Asm.patchI32, code]
  refine congrArg (fun code => { asm with code := code }) (Eq.trans ?_ (patched.trans ?_))
  · simp [gateCode]
  · simp [gateCode, Instr.setField]

theorem patchI32_deducted (code : asm.code = left ++ gateCode a b short rel ++ right) {offset : Nat}
    (here : offset + 4 = Layout.size Instr.len left + (7 + (Instr.jcc short .l rel).len + 7)) :
    asm.patchI32 offset v = { asm with code := left ++ gateCode a v short rel ++ right } := by
  have patched := Layout.modifyEnding_append Instr.len_pos (Instr.setField v) 0
    (left ++ [.aluPatch .cmp gasReg a, .jcc short .l rel]) (.aluPatch .sub gasReg b) right
  have stop : 0 + Layout.size Instr.len (left ++ [.aluPatch .cmp gasReg a, .jcc short .l rel]) +
      (Instr.aluPatch .sub gasReg b).len = offset + 4 := by
    have first : (Instr.aluPatch .cmp gasReg a).len = 7 := rfl
    have last : (Instr.aluPatch .sub gasReg b).len = 7 := rfl
    simp only [Layout.size_append, Layout.size_cons, Layout.size_nil, first, last]
    omega
  rw [stop] at patched
  rw [Asm.patchI32, code]
  refine congrArg (fun code => { asm with code := code }) (Eq.trans ?_ (patched.trans ?_))
  · simp [gateCode]
  · simp [gateCode, Instr.setField]

end

/-- The gates of the closed blocks stand in the code before the gate that is still to be patched.
Every block so far starts below the limit. -/
def Gated (limit : Nat) (asm : Asm) (pending : Option PendingGas) (gates : List BlockGate) : Prop :=
  ∃ left right, asm.code = left ++ right ∧
    (∀ g ∈ gates, g.pc < limit ∧ HasGate left asm.labels g) ∧
    ∀ p ∈ pending, p.blockPc < limit ∧
      asm.labels (labelBase + p.blockPc) = Asm.stored (Layout.size Instr.len left) ∧
      ∃ short rel rest, right = gateCode 0 0 short rel ++ rest ∧
        p.cmpOffset + 4 = Layout.size Instr.len left + 7 ∧
        p.subOffset + 4 = Layout.size Instr.len left + (7 + (Instr.jcc short .l rel).len + 7)

section

variable {limit : Nat} {asm asm' : Asm} {pending : Option PendingGas} {gates : List BlockGate}

theorem Gated.mono (gated : Gated limit asm pending gates) {limit' : Nat} (more : limit ≤ limit') :
    Gated limit' asm pending gates := by
  obtain ⟨left, right, code, closed, opened⟩ := gated
  exact ⟨left, right, code, fun g member => ⟨(closed g member).1.trans_le more, (closed g member).2⟩,
    fun p found => ⟨(opened p found).1.trans_le more, (opened p found).2⟩⟩

theorem Gated.extends (gated : Gated limit asm pending gates) {base : Nat}
    (below : labelBase + limit ≤ base) (grown : asm.Extends base asm') :
    Gated limit asm' pending gates := by
  obtain ⟨left, right, code, closed, opened⟩ := gated
  obtain ⟨more, code'⟩ := grown.code
  have same {pc : Nat} (inside : pc < limit) :
      asm'.labels (labelBase + pc) = asm.labels (labelBase + pc) :=
    grown.labels _ (Nat.lt_of_lt_of_le (Nat.add_lt_add_left inside labelBase) below)
  refine ⟨left, right ++ more, by rw [code', code, List.append_assoc], fun g member => ?_,
    fun p found => ?_⟩
  · obtain ⟨inside, gate⟩ := closed g member
    have kept := gate.append [] (same inside)
    rw [List.append_nil] at kept
    exact ⟨inside, kept⟩
  · obtain ⟨inside, bound, short, rel, rest, gate, offsets⟩ := opened p found
    refine ⟨inside, (same inside).trans bound, short, rel, rest ++ more, ?_, offsets⟩
    rw [gate, List.append_assoc]

/-- Closing a block fills in the two immediates of its gate. -/
theorem Gated.flush {c : Compiler} (gated : Gated limit c.asm c.pendingGas gates) :
    Gated limit c.flushPendingGas.asm none (gates ++ c.pendingGas.toList.map fun p =>
      ⟨p.blockPc, c.gas.sim.flushAndGetCost, c.gas.reserve⟩) := by
  obtain ⟨left, right, code, closed, opened⟩ := gated
  unfold Compiler.flushPendingGas
  cases pending : c.pendingGas with
  | none => exact ⟨left, right, code, by simpa using closed, by simp⟩
  | some p =>
    obtain ⟨inside, bound, short, rel, rest, rfl, compareAt, deductAt⟩ := opened p pending
    rw [← List.append_assoc] at code
    simp only
    rw [patchI32_compared _ left rest _ _ _ short rel code compareAt,
      patchI32_deducted _ left rest _ _ _ short rel rfl deductAt]
    refine ⟨_, [], (List.append_nil _).symm, fun g member => ?_, by simp⟩
    rcases List.mem_append.mp member with earlier | last
    · obtain ⟨below, gate⟩ := closed g earlier
      exact ⟨below, by simpa using gate.append _ rfl⟩
    · obtain rfl : g = ⟨p.blockPc, c.gas.sim.flushAndGetCost, c.gas.reserve⟩ := by simpa using last
      exact ⟨inside, left, short, rel, rest, rfl, bound⟩

/-- A gate at the end of the code, where the label of its block has just been bound. -/
theorem Gated.emitGate {c : Compiler} (gated : Gated limit c.asm none gates) {pc base : Nat}
    (inside : pc < limit) (bound : c.asm.labels (labelBase + pc) = Asm.stored c.asm.offset) :
    ∃ asm gate, c.emitGate pc = some { c with asm, pendingGas := some gate } ∧ gate.blockPc = pc ∧
      Gated limit asm (some gate) gates ∧ c.asm.Extends base asm := by
  obtain ⟨left, right, code, closed, -⟩ := gated
  have known : c.asm.newLabel.1 < (c.asm.newLabel.2.emit (.aluPatch .cmp gasReg 0)).tableLen :=
    Nat.lt_of_lt_of_le (Nat.lt_succ_self _) (Nat.le_max_right _ _)
  obtain ⟨short, rel, fixups, jumped⟩ := Asm.jumpLabel_of_lt (fun short rel => .jcc short .l rel) known
  unfold Compiler.emitGate
  simp only
  rw [Asm.jccLabel, jumped]
  refine ⟨_, _, rfl, rfl, ⟨c.asm.code, gateCode 0 0 short rel, ?_, fun g member => ?_, ?_⟩, ?_⟩
  · simp [Asm.emit, Asm.newLabel, gateCode]
  · obtain ⟨below, gate⟩ := closed g member
    exact ⟨below, code ▸ gate.append right rfl⟩
  · intro p found
    cases found
    refine ⟨inside, bound, short, rel, [], (List.append_nil _).symm, ?_, ?_⟩
    · simp only [Asm.emit, Asm.newLabel, Asm.offset, Layout.size_append, Layout.size_cons,
        Layout.size_nil, Instr.len]
      omega
    · have last : (Instr.aluPatch .sub gasReg 0).len = 7 := rfl
      have first : (Instr.aluPatch .cmp gasReg 0).len = 7 := rfl
      simp only [Asm.emit, Asm.newLabel, Asm.offset, Layout.size_append, Layout.size_cons,
        Layout.size_nil, first, last]
      omega
  · exact
      { code := ⟨gateCode 0 0 short rel, by simp [Asm.emit, Asm.newLabel, gateCode]⟩
        labels := fun _ _ => rfl
        handed := Nat.le_succ _
        table := Nat.le_max_left _ _
        sized := fun _ => Nat.le_max_right _ _ }

end

end Jar.Recompiler
