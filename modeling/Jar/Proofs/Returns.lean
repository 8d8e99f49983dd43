import Jar.Proofs.LoweredCode

/-! Every dispatcher returns, unless it fuses an instruction with one that names a spilled register
or jumps to an offset without a label. -/

namespace Jar.Recompiler

open X86 Lower

/-- A dispatcher that returns whenever `low` labels have been handed out, and what it emits
fits. -/
def Returns (base table low : Nat) {α : Type} (d : Dispatch α) : Prop :=
  ∀ g, Fitting base table low (d g)

theorem branchCc_eq_none (f3 : BitVec 3) : branchCc f3 = none ↔ decodeBranch f3 = none := by
  revert f3
  decide

/-- There are more candidates than registers in a word. -/
theorem pickDonors_isSome {regs : List RegIdx} (short : regs.length ≤ 3) :
    ∃ donors, pickDonors regs = some donors := by
  have found (blocked : List RegIdx) (few : blocked.length ≤ 4) : ∃ c, pickDonor blocked = some c := by
    refine Option.ne_none_iff_exists'.mp fun none => ?_
    have all : donorCandidates ⊆ blocked := fun x member => by
      simpa using List.find?_eq_none.mp none x member
    have long := (List.Nodup.subperm (by decide) all).length_le
    simp [donorCandidates] at long
    omega
  obtain ⟨c, first⟩ := found regs (by omega)
  obtain ⟨c₁, second₁⟩ := found (regs ++ [c]) (by simp; omega)
  obtain ⟨c₀, second₀⟩ := found regs (by omega)
  unfold pickDonors
  split <;> split <;> simp_all

/-- Compiled alone, an instruction with donors is fused with none and jumps nowhere. -/
theorem compilable_donors {w : BitVec 32} {fields : Fields}
    (found : donorFields (major w) = some fields) (codeLen pc : Nat) :
    (decode32 w).Compilable codeLen pc [] := by
  unfold decode32
  split
  · trivial
  simp only
  split
  case h_1 =>
    cases decodeLoad (funct3 w) with
    | none => trivial
    | some op => cases op <;> simp [Inst.Compilable, loadTrailer, peekAluRrTrailer]
  case h_2 => cases decodeStore (funct3 w) <;> trivial
  case h_3 =>
    unfold decodeOpImm
    (repeat' split) <;> trivial
  case h_4 =>
    unfold decodeOpImm32
    (repeat' split) <;> trivial
  case h_5 => (repeat' split) <;> trivial
  case h_6 => cases decodeOp32 (funct7 w) (funct3 w) <;> trivial
  case h_7 => exact .inr fun t found => by cases found
  case h_8 => trivial
  case h_14 => trivial
  all_goals
    next opcode =>
    rw [opcode] at found
    cases found

section

variable {base table low : Nat} {env : CodeEnv} {rd rs1 rs2 : RegIdx} {pc : Nat} {rest : List Byte}
  {w : BitVec 32}

theorem IsOperand.unspilled {x : RegIdx} (operand : IsOperand x) : regIsSpilled x = false := by
  revert x
  decide

/-! ## Arms -/

theorem Returns.bind {α β : Type} {d : Dispatch α} {f : α → Dispatch β} (first : Returns base table low d)
    (second : ∀ a, Returns base table low (f a)) : Returns base table low (d >>= f) :=
  fun g => (first g).bind fun r => second r.1 r.2

theorem returns_lift {α : Type} {body : Lower α} (fitting : Fitting base table low body) :
    Returns base table low (liftM body : Dispatch α) := by
  intro g st enough
  obtain ⟨a, st', items, ran, rest⟩ := fitting st enough
  exact ⟨(a, g), st', items, by rw [lift_apply, ran]; rfl, rest⟩

theorem returns_feed (kind : RvKind) (a b c : RegIdx) :
    Returns base table low (feedGasRv env kind a b c) := fun g st _ =>
  ⟨_, st, [], feedGasRv_apply .., by simp, rfl, trivial⟩

theorem returns_pure {α : Type} (a : α) : Returns base table low (pure a : Dispatch α) :=
  fun g => fitting_pure (a, g)

theorem returns_arm {body : Lower Unit} (fitting : Fitting base table low body) (preserveCf : Bool)
    (kind : RvKind) (a b c : RegIdx) :
    Returns base table low (compileArm env preserveCf body kind a b c) :=
  (returns_lift fitting).bind fun _ => (returns_feed kind a b c).bind fun _ => returns_pure _

theorem returns_pair {body : Lower Unit} (fitting : Fitting base table low body) (kind kind' : RvKind)
    (a b c a' b' c' : RegIdx) (r : Compiled) :
    Returns base table low (do
      body
      let _ ← feedGasRv env kind a b c
      let _ ← feedGasRv env kind' a' b' c'
      return r) :=
  (returns_lift fitting).bind fun _ => (returns_feed kind a b c).bind fun _ =>
    (returns_feed kind' a' b' c').bind fun _ => returns_pure _

variable (room : 5 ≤ low)

include room

theorem returns_reserved (pc : Nat) : Returns base table low (compileReserved env pc) :=
  (returns_lift (fitting_rvEmitPanicAt room pc)).bind fun _ =>
    (returns_feed .reserved 0 0 0).bind fun _ => returns_pure _

variable (above : base ≤ low) (code : env.codeLen + 1024 ≤ table)

include above code

theorem Lowers.fitting {inst : Inst} {body : Lower Unit} (lowers : Lowers env pc rest inst body)
    (compilable : inst.Compilable env.codeLen pc rest) : Fitting base table low body := by
  cases lowers with
  | ends _ fits => exact fits base table low room code compilable
  | arithmetic _ yields => exact (Yields.emits yields).fitting above
  | sltu operand operand1 operand2 =>
    exact (emits_rvSltRr operand operand1 operand2 pc).fitting above
  | divide operand operand1 operand2 =>
    exact (emits_rvDivRem operand operand1 operand2 _ _ _ pc).fitting above
  | load op operand operand1 imm =>
    exact (emits_rvLoad operand operand1 imm _ _ pc).fitting above
  | store op operand1 operand2 imm =>
    exact (emits_rvStore operand1 operand2 imm _ pc).fitting above
  | lui operand imm => exact (Yields.emits fun _ => yields_lowerLui operand imm pc).fitting above
  | auipc operand imm =>
    exact (Yields.emits fun _ => (computes_constant operand _ pc).yields operand).fitting above

omit room code in
theorem Fuses.fitting {inst second : Inst} {body : Lower Unit}
    (fuses : Fuses pc rest w inst second body) {codeLen : Nat}
    (compilable : inst.Compilable codeLen pc rest) : Fitting base table low body := by
  cases fuses with
  | load operand operand1 found imm =>
    obtain ⟨-, -, -, -, ordinary, ordinary1, ordinary2⟩ := of_loadTrailer found
    have unspilled := (compilable.resolve_left (by simp [operand.unspilled])).resolve_left
      (by simp [operand1.unspilled]) _ found
    exact fitting_fusedLoad above operand operand1 imm
      (Plain.isOperand ⟨ordinary, unspilled _ (by simp)⟩)
      (Plain.isOperand ⟨ordinary1, unspilled _ (by simp)⟩)
      (Plain.isOperand ⟨ordinary2, unspilled _ (by simp)⟩) pc
  | product => exact (emits_fusedMul _ _ _ _ _).fitting above
  | lui operand found imm =>
    obtain ⟨-, -, -, -, -, -, ordinary⟩ := of_luiTrailer found
    have unspilled := compilable.resolve_left (by simp [operand.unspilled]) _ found
    exact fitting_fusedLui operand (Plain.isOperand ⟨ordinary, unspilled⟩) imm pc

/-- Every word whose registers live in host registers. -/
theorem Dispatched.returns {inst : Inst} {d : Dispatch Compiled}
    (dispatched : Dispatched env pc rest w inst d)
    (compilable : inst.Compilable env.codeLen pc rest) : Returns base table low d := by
  cases dispatched with
  | single lowers => exact returns_arm (lowers.fitting room above code compilable) _ _ _ _ _
  | pair fuses => exact returns_pair (fuses.fitting above compilable) _ _ _ _ _ _ _ _ _
  | reserved => exact returns_reserved room pc
  | fence | reservedFence => exact (returns_feed .fence 0 0 0).bind fun _ => returns_pure _

/-! ## Words that name a spilled register -/

/-- A word with donors returns, since there are donors and the word between them names no spilled
register. -/
theorem returns_viaDonors {fields : Fields} (length : lengthBits w = 0b11#2)
    (ordinary : OrdinaryWord w) (found : donorFields (major w) = some fields) (instLen : Nat) :
    Returns base table low (emitSpilledViaDonors
      (fun w' => compileWord env (unwrap none : Lower Compiled) w' pc instLen []) w pc) := by
  obtain ⟨donors, picked⟩ := pickDonors_isSome (fields.length_regs w)
  obtain ⟨slots, mapped, -⟩ := standsIn_pickDonors picked
  have plain := plainWord_rewriteFields found picked ordinary
  obtain ⟨length', opcode, -⟩ := fields_rewriteFields fields donors w
  obtain ⟨ordinary', unspilled⟩ := (plainWord_iff (length'.trans length)).mp plain
  unfold emitSpilledViaDonors
  rw [found]
  simp only
  rw [picked]
  have inner : Returns base table low (compileWord env (unwrap none : Lower Compiled)
      (rewriteFields fields donors w) pc instLen []) := by
    simp only [compileWord, ordinary', unspilled, Bool.false_eq_true, if_false]
    exact (dispatched_opcode (length'.trans length) plain instLen).returns room above code
      (compilable_donors (opcode ▸ found) _ _)
  have prologue : Emits (donorPrologue (fields.sources w) donors) := fun _ =>
    ⟨_, _, donorPrologue_apply mapped _, .code rfl rfl⟩
  have epilogue (rd : Option RegIdx) : Emits (donorEpilogue rd donors) := fun _ =>
    ⟨_, _, donorEpilogue_apply mapped _, .code rfl rfl⟩
  exact (returns_lift (prologue.fitting above)).bind fun _ => inner.bind fun _ =>
    returns_lift ((epilogue _).fitting above)

theorem returns_emitSpilled (length : lengthBits w = 0b11#2) (ordinary : OrdinaryWord w)
    (compilable : (decode32 w).Compilable env.codeLen pc rest) (instLen : Nat) :
    Returns base table low (emitSpilled env
      (fun w' => compileWord env (unwrap none : Lower Compiled) w' pc instLen []) w pc
      instLen) := by
  have either : ∀ x ∈ (opcodeFields (major w)).regs w, IsOperand x ∨ regIsSpilled x = true := by
    intro x member
    cases spilled : regIsSpilled x with
    | true => exact .inr rfl
    | false => exact .inl (Plain.isOperand ⟨ordinary x member, spilled⟩)
  unfold emitSpilled
  simp only
  split
  case h_1 opcode =>
    simp only [decode32, length, ne_eq, not_true_eq_false, if_false, opcode] at compilable
    exact returns_lift (fitting_rvJalSpilled room code compilable _ _)
  case h_2 opcode =>
    obtain ⟨operand, operand1⟩ : (IsOperand (rdField w) ∨ regIsSpilled (rdField w) = true) ∧
        (IsOperand (rs1Field w) ∨ regIsSpilled (rs1Field w) = true) := by
      simpa [opcode, opcodeFields, Fields.regs] using either
    split
    · exact returns_lift (fitting_rvJalrSpilled room operand operand1 _ pc _)
    · exact returns_lift (fitting_rvEmitPanicAt room pc)
  case h_3 opcode =>
    simp only [decode32, length, ne_eq, not_true_eq_false, if_false, opcode] at compilable
    obtain ⟨operand1, operand2⟩ : (IsOperand (rs1Field w) ∨ regIsSpilled (rs1Field w) = true) ∧
        (IsOperand (rs2Field w) ∨ regIsSpilled (rs2Field w) = true) := by
      simpa [opcode, opcodeFields, Fields.regs] using either
    refine returns_lift (fitting_rvBranchSpilled room code operand1 operand2 _ fun known => ?_)
    obtain ⟨op, decoded⟩ := Option.ne_none_iff_exists'.mp
      (mt (branchCc_eq_none (funct3 w)).mpr known)
    rw [decoded] at compilable
    exact compilable
  case h_4 =>
    cases found : donorFields (major w) with
    | some fields => exact returns_viaDonors room above code length ordinary found instLen
    | none =>
      unfold emitSpilledViaDonors
      rw [found]
      exact returns_lift (fitting_rvEmitPanicAt room pc)

theorem returns_rv4 (length : lengthBits w = 0b11#2)
    (compilable : (reserveIfReservedReg (decode32 w)).Compilable env.codeLen pc rest)
    (instLen : Nat) : Returns base table low (compileRv4 env w pc instLen rest) := by
  rw [reserveIfReservedReg_decode32 length] at compilable
  unfold compileRv4
  cases reserved : wordUsesReservedReg w with
  | true =>
    rw [compileWord, if_pos reserved]
    exact returns_reserved room pc
  | false =>
    have ordinary := (ordinaryWord_iff length).mp reserved
    rw [reserved, if_neg Bool.false_ne_true] at compilable
    rw [compileWord, reserved]
    cases spilled : wordUsesSpilledReg w with
    | false =>
      have plain := (plainWord_iff length).mpr ⟨reserved, spilled⟩
      exact (dispatched_opcode length plain instLen).returns room above code compilable
    | true =>
      intro g st enough
      obtain ⟨g₁, term, known⟩ := @compileRvSpilled_eq env g st w length
        (fun w' => compileWord env (unwrap none : Lower Compiled) w' pc instLen []) pc instLen
      obtain ⟨_, st', items, emitted, fits⟩ :=
        returns_emitSpilled room above code length ordinary compilable instLen g₁ st enough
      exact ⟨_, st', items, known.trans (by rw [emitted]; rfl), fits⟩

theorem returns_rvc {h : BitVec 16}
    (compilable : (reserveIfReservedReg (decompress h)).Compilable env.codeLen pc rest) :
    Returns base table low (compileRvc env h pc rest) := by
  have agrees := agrees_expandRvc h
  unfold compileRvc
  cases expanded : expandRvc h with
  | none => exact returns_reserved room pc
  | some w =>
    rw [expanded] at agrees
    obtain ⟨length, decoded, -⟩ := agrees
    rw [← decoded] at compilable
    exact returns_rv4 room above code length compilable 2

end

end Jar.Recompiler
