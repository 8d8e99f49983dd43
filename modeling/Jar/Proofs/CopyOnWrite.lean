import Jar.Proofs.MemoryAccess

/-! What a run pays beside its blocks and calls: one copy for every page that it stores to. -/

namespace Jar

/-! ## Written pages -/

/-- Exactly these pages of a memory have been copied. -/
structure Written (mem : CopyingMemory) (pages : Finset (BitVec 32)) : Prop where
  aligned : ∀ page ∈ pages, page.toNat % pageSize = 0
  states : ∀ i, mem.matState i = .presentRw ↔ ∃ page ∈ pages, mem.off page / pageSize = i

namespace CopyingMemory

variable {mem : CopyingMemory} {pages : Finset (BitVec 32)}

theorem eq_of_index_eq {page page' : BitVec 32} (aligned : page.toNat % pageSize = 0)
    (aligned' : page'.toNat % pageSize = 0)
    (same : mem.off page / pageSize = mem.off page' / pageSize) : page = page' := by
  have bound := page.isLt
  have bound' := page'.isLt
  have baseBound := mem.base.isLt
  unfold off at same
  rw [BitVec.toNat_sub, BitVec.toNat_sub] at same
  apply BitVec.eq_of_toNat_eq
  simp only [pageSize] at *
  omega

theorem aligned_of_mem_accessPages {addr page : BitVec 32} {width : Nat}
    (member : page ∈ accessPages addr width) : page.toNat % pageSize = 0 := by
  have here := toNat_pageOf addr
  unfold accessPages at member
  dsimp only at member
  split at member
  · rcases List.mem_cons.mp member with rfl | last
    · change (pageOf addr).toNat % pageSize = 0
      simp only [pageSize]
      omega
    · rw [List.mem_singleton.mp last]
      change (pageOf addr + 0x1000#32).toNat % pageSize = 0
      rw [BitVec.toNat_add, BitVec.toNat_ofNat]
      simp only [pageSize]
      omega
  · rw [List.mem_singleton.mp member]
    change (pageOf addr).toNat % pageSize = 0
    simp only [pageSize]
    omega

/-- A write to a page copies it, and pays for the copy unless it was there. -/
theorem written_materialize (written : Written mem pages) {page : BitVec 32}
    (aligned : page.toNat % pageSize = 0) (writable : mem.accessible true page = true) :
    Written (mem.materialize true page).1 (insert page pages) ∧
      (mem.materialize true page).2 + cowCost * pages.card =
        cowCost * (insert page pages).card := by
  unfold accessible at writable
  cases found : mem.pageIndex page with
  | none => simp [found] at writable
  | some i =>
    have index : i = mem.off page / pageSize := by
      unfold pageIndex at found
      split at found
      · exact (Option.some.inj found).symm
      · cases found
    have rw_ : mem.perms i = .rw := by
      simp only [found] at writable
      cases perm : mem.perms i <;> simp [perm] at writable ⊢
    have notRo : mem.perms i ≠ .ro := by rw [rw_]; decide
    by_cases copied : page ∈ pages
    · -- The page is there: nothing happens.
      have there : mem.matState i = .presentRw := (written.states i).mpr ⟨page, copied, index.symm⟩
      have stale : mem.fresh true page = false := by simp [fresh, found, there]
      rw [materialize_of_stale stale, Finset.insert_eq_of_mem copied]
      exact ⟨written, Nat.zero_add _⟩
    · -- No page with this index has been copied.
      have new : mem.matState i ≠ .presentRw := by
        intro there
        obtain ⟨page', member, same⟩ := (written.states i).mp there
        rw [index] at same
        exact copied (eq_of_index_eq (written.aligned page' member) aligned same ▸ member)
      have charged : chargeFor (mem.matState i) .unpinnedCapCow true =
          some (cowCost, .presentRw) := by
        cases state : mem.matState i <;> simp [chargeFor, state] at new ⊢
      have is : mem.materialize true page =
          ({ mem with matState := Function.update mem.matState i .presentRw }, cowCost) := by
        unfold materialize
        simp only [found, if_neg notRo, charged]
      rw [is, Finset.card_insert_of_notMem copied]
      refine ⟨⟨fun page' member => ?_, fun j => ?_⟩, by rw [Nat.mul_add]; omega⟩
      · rcases Finset.mem_insert.mp member with rfl | member
        · exact aligned
        · exact written.aligned page' member
      · change Function.update mem.matState i .presentRw j = .presentRw ↔
          ∃ page' ∈ insert page pages, mem.off page' / pageSize = j
        by_cases here : j = i
        · subst here
          rw [Function.update_self]
          exact iff_of_true rfl ⟨page, Finset.mem_insert_self .., index.symm⟩
        · rw [Function.update_of_ne here, written.states j]
          constructor
          · rintro ⟨page', member, same⟩
            exact ⟨page', Finset.mem_insert_of_mem member, same⟩
          · rintro ⟨page', member, same⟩
            rcases Finset.mem_insert.mp member with rfl | member
            · exact absurd (same.symm.trans index.symm) here
            · exact ⟨page', member, same⟩

/-- A write to several pages copies them one after the other. -/
theorem written_materializeAll {list : List (BitVec 32)} (written : Written mem pages)
    (aligned : ∀ page ∈ list, page.toNat % pageSize = 0)
    (writable : ∀ page ∈ list, mem.accessible true page = true) :
    Written (mem.materializeAll true list).1 (pages ∪ list.toFinset) ∧
      (mem.materializeAll true list).2 + cowCost * pages.card =
        cowCost * (pages ∪ list.toFinset).card := by
  induction list generalizing mem pages with
  | nil => simpa [materializeAll] using written
  | cons page rest ih =>
    obtain ⟨first, paid⟩ := written_materialize written (aligned page (List.mem_cons_self ..))
      (writable page (List.mem_cons_self ..))
    -- The permissions stay, so that the other pages are still writable.
    obtain ⟨states, frame⟩ := materialize_frame mem true page
    have still : ∀ page' ∈ rest, (mem.materialize true page).1.accessible true page' = true := by
      intro page' member
      rw [frame]
      exact writable page' (List.mem_cons_of_mem _ member)
    obtain ⟨later, paidLater⟩ := ih first
      (fun page' member => aligned page' (List.mem_cons_of_mem _ member)) still
    have union : pages ∪ (page :: rest).toFinset = insert page pages ∪ rest.toFinset := by
      rw [List.toFinset_cons, Finset.union_insert, Finset.insert_union]
    rw [union]
    refine ⟨later, ?_⟩
    rw [materializeAll]
    dsimp only
    omega

theorem matState_materialize_read (mem : CopyingMemory) (page : BitVec 32) (i : Nat) :
    (mem.materialize false page).1.matState i = .presentRw ↔ mem.matState i = .presentRw := by
  unfold materialize
  split
  · next j _ =>
    split
    · exact Iff.rfl
    · split
      · next charge next charged =>
        by_cases here : i = j
        · subst here
          simp only [Function.update_self]
          unfold chargeFor at charged
          cases state : mem.matState i <;> simp [state] at charged <;> simp [← charged.2]
        · simp only [Function.update_of_ne here]
      · exact Iff.rfl
  · exact Iff.rfl

theorem matState_materializeAll_read (mem : CopyingMemory) (list : List (BitVec 32)) (i : Nat) :
    (mem.materializeAll false list).1.matState i = .presentRw ↔ mem.matState i = .presentRw := by
  induction list generalizing mem with
  | nil => exact Iff.rfl
  | cons page rest ih => exact (ih _).trans (matState_materialize_read mem page i)

theorem written_touch_read (written : Written mem pages) {addr : BitVec 32} {width total : Nat}
    {after : CopyingMemory} (touched : mem.touch addr width false = some (after, total)) :
    Written after pages := by
  obtain ⟨⟨states, frame⟩, -⟩ := touch_frame touched
  have same : ∀ i, after.matState i = .presentRw ↔ mem.matState i = .presentRw := by
    intro i
    unfold touch at touched
    dsimp only at touched
    split at touched
    · unfold touchData at touched
      split at touched
      · have is := congrArg Prod.fst (Option.some.inj touched)
        rw [← show _ = after from is]
        exact matState_materializeAll_read mem _ i
      · cases touched
    · -- Neither code nor an unmapped page is materialized.
      split at touched
      · split at touched
        · cases touched
          exact Iff.rfl
        · cases touched
      · cases touched
        exact Iff.rfl
  refine ⟨written.aligned, fun i => (same i).trans ?_⟩
  rw [frame]
  exact written.states i

end CopyingMemory

/-! ## Steps -/

section

variable {Host : Type} (prog : Program) (handler : EcallHandler Host)

/-- An outcome of an instruction that ends in a page fault. -/
def Outcome.faulted {Idx : Type} : Outcome Idx Host → Bool
  | .exit (.pageFault _) _ => true
  | _ => false

/-- The pages that an instruction successfully stores to. -/
def storedPages (idx : prog.Idx) (s : ExecState Host) : Finset (BitVec 32) :=
  match gate prog idx s with
  | .next _ paid =>
    match (prog.fetch idx).inst with
    | .store op rs1 _ imm =>
      if (execInst prog handler idx paid).faulted then ∅
      else (accessPages (computeAddr paid.gpr rs1 imm) op.width).toFinset
    | _ => ∅
  | _ => ∅

/-- What a step pays for its block or its call. -/
def fixedCost (idx : prog.Idx) (s : ExecState Host) : Nat :=
  match gate prog idx s with
  | .next _ paid =>
    prog.predecode.blockCosts idx +
      if isEcallBlock (prog.fetch idx).inst ∧ ecallCost (prog.fetch idx).inst ≤ paid.gas then
        ecallCost (prog.fetch idx).inst
      else 0
  | _ => 0

/-- A store of a step fits the buffer. -/
def StoreFits (idx : prog.Idx) (s : ExecState Host) : Prop :=
  ∀ paid op rs1 rs2 imm, gate prog idx s = .next () paid →
    (prog.fetch idx).inst = .store op rs1 rs2 imm → FitsBuffer prog paid (.store op rs1 rs2 imm)

/-- Calls neither copy pages nor move the buffer. -/
def KeepsCopies : Prop :=
  ∀ kind gpr pc mem host,
    (handler kind gpr pc mem host).2.2.2.1.matState = mem.matState ∧
      (handler kind gpr pc mem host).2.2.2.1.base = mem.base

def Outcome.state? {Idx : Type} : Outcome Idx Host → Option (ExecState Host)
  | .next _ s => some s
  | .exit _ s => some s
  | .abort => none

variable {prog handler}

/-- Going on keeps everything but the recorded offset. -/
theorem advance_state {idx : prog.Idx} {s s' : ExecState Host}
    (is : (advance prog idx s).state? = some s') : s'.gas = s.gas ∧ s'.mem = s.mem := by
  unfold advance at is
  split at is <;> cases is <;> exact ⟨rfl, rfl⟩

theorem advance_not_faulted (idx : prog.Idx) (s : ExecState Host) :
    ¬(advance prog idx s).faulted = true := by
  unfold advance
  split <;> exact Bool.false_ne_true

theorem jumpTo_state {idx : prog.Idx} {s s' : ExecState Host} {target : BitVec 32}
    (is : (jumpTo prog idx s target).state? = some s') : s'.gas = s.gas ∧ s'.mem = s.mem := by
  unfold jumpTo at is
  dsimp only at is
  split at is
  · split at is <;> cases is <;> exact ⟨rfl, rfl⟩
  · cases is
    exact ⟨rfl, rfl⟩

/-- Everything but loads, stores and calls keeps the gas and the memory. -/
theorem execInst_state {idx : prog.Idx} {s s' : ExecState Host}
    (noCall : isEcallBlock (prog.fetch idx).inst = false)
    (noLoad : ∀ op rd rs1 imm, (prog.fetch idx).inst ≠ .load op rd rs1 imm)
    (noStore : ∀ op rs1 rs2 imm, (prog.fetch idx).inst ≠ .store op rs1 rs2 imm)
    (is : (execInst prog handler idx s).state? = some s') : s'.gas = s.gas ∧ s'.mem = s.mem := by
  have moved : ∀ gpr : Regs, (advance prog idx { s with gpr }).state? = some s' →
      s'.gas = s.gas ∧ s'.mem = s.mem := by
    intro gpr went
    have kept := advance_state went
    exact kept
  have jumped : ∀ (gpr : Regs) target, (jumpTo prog idx { s with gpr } target).state? = some s' →
      s'.gas = s.gas ∧ s'.mem = s.mem := by
    intro gpr target went
    have kept := jumpTo_state went
    exact kept
  have stopped : ∀ reason, (Outcome.exit reason { s with pc := (prog.fetch idx).pc } :
      Outcome prog.Idx Host).state? = some s' → s'.gas = s.gas ∧ s'.mem = s.mem := by
    intro reason ended
    cases ended
    exact ⟨rfl, rfl⟩
  unfold execInst at is
  dsimp only at is
  cases shape : (prog.fetch idx).inst <;> simp only [shape] at is noCall
  case load op rd rs1 imm => exact absurd shape (noLoad op rd rs1 imm)
  case store op rs1 rs2 imm => exact absurd shape (noStore op rs1 rs2 imm)
  case ecallJar => cases noCall
  case ecalli imm => cases noCall
  case branch op rs1 rs2 imm =>
    split at is
    · exact jumped s.gpr _ is
    · exact moved s.gpr is
  case jal rd imm => exact jumped _ _ is
  case jalr rd rs1 imm => exact jumped _ _ is
  case trap => exact stopped _ is
  case reserved => exact stopped _ is
  case fence => exact moved s.gpr is
  case fenceI => exact moved s.gpr is
  case fallthrough => exact moved s.gpr is
  all_goals exact moved _ is

theorem execInst_call_state (keeps : KeepsCopies handler) {idx : prog.Idx} {s s' : ExecState Host}
    (called : isEcallBlock (prog.fetch idx).inst = true)
    (is : (execInst prog handler idx s).state? = some s') :
    s.gas = s'.gas + (if ecallCost (prog.fetch idx).inst ≤ s.gas then
      ecallCost (prog.fetch idx).inst else 0) ∧
      s'.mem.matState = s.mem.matState ∧ s'.mem.base = s.mem.base := by
  have charged : ∀ kind cost, (execEcall prog handler idx s kind cost).state? = some s' →
      s.gas = s'.gas + (if cost ≤ s.gas then cost else 0) ∧
        s'.mem.matState = s.mem.matState ∧ s'.mem.base = s.mem.base := by
    intro kind cost went
    unfold execEcall at went
    dsimp only at went
    by_cases short : s.gas < cost
    · rw [if_pos short] at went
      cases went
      exact ⟨by rw [if_neg (Nat.not_le.mpr short)]; rfl, rfl, rfl⟩
    · -- The handler runs after the charge.
      have covered := Nat.le_of_not_lt short
      have kept := keeps kind s.gpr (prog.fetch idx).nextPc s.mem s.host
      simp only [short, if_false, ExecState.charge, covered, if_true] at went ⊢
      split at went
      · split at went <;> cases went <;> exact ⟨(Nat.sub_add_cancel covered).symm, kept⟩
      · cases went
        exact ⟨(Nat.sub_add_cancel covered).symm, kept⟩
  unfold execInst at is
  dsimp only at is
  cases shape : (prog.fetch idx).inst <;> simp only [shape, isEcallBlock] at is called
  case ecallJar => exact charged _ _ is
  case ecalli imm => exact charged _ _ is
  all_goals cases called

/-- A store pays for the pages that it copies if it succeeds, and for nothing if it fails. -/
theorem execInst_store_state (predecoded : Predecoded prog) {idx : prog.Idx}
    {s s' : ExecState Host} (reserved : Reserved (restOfBlock prog idx) s)
    (aligned : s.mem.base.toNat % pageSize = 0) {pages : Finset (BitVec 32)}
    (written : Written s.mem pages) {op : StoreOp} {rs1 rs2 : RegIdx} {imm : BitVec 32}
    (shape : (prog.fetch idx).inst = .store op rs1 rs2 imm)
    (fits : FitsBuffer prog s (.store op rs1 rs2 imm))
    (is : (execInst prog handler idx s).state? = some s') :
    let stored := if (execInst prog handler idx s).faulted then ∅
      else (accessPages (computeAddr s.gpr rs1 imm) op.width).toFinset
    s.gas + cowCost * pages.card = s'.gas + cowCost * (pages ∪ stored).card ∧
      Written s'.mem (pages ∪ stored) ∧ s'.mem.base = s.mem.base := by
  intro stored
  rcases execInst_store handler predecoded reserved shape with
    ⟨-, went⟩ | ⟨states, charge, touched, covered, went⟩
  · -- The touch faults.
    have none : stored = ∅ := if_pos (by rw [went]; rfl)
    rw [went] at is
    cases is
    rw [none, Finset.union_empty]
    exact ⟨rfl, written, rfl⟩
  · by_cases served : storeWritable s.mem (computeAddr s.gpr rs1 imm) op.width = true ∧
        s.mem.off (computeAddr s.gpr rs1 imm) + op.width ≤ s.mem.flatLen
    · -- The store succeeds, so that its first page is mapped and all pages were copied.
      rw [if_pos served] at went
      have all : stored = (accessPages (computeAddr s.gpr rs1 imm) op.width).toFinset :=
        if_neg (by rw [went]; exact advance_not_faulted _ _)
      have width := op.width_le
      have data : s.mem.mapped (CopyingMemory.pageOf (computeAddr s.gpr rs1 imm)) = true := by
        have offset := CopyingMemory.off_pageOf aligned (computeAddr s.gpr rs1 imm)
        have writable : s.mem.permOf (computeAddr s.gpr rs1 imm) = .rw := by
          have both := served.1
          simp only [storeWritable, Bool.and_eq_true, beq_iff_eq] at both
          exact both.1
        have low : s.mem.off (CopyingMemory.pageOf (computeAddr s.gpr rs1 imm)) <
            s.mem.flatLen := by
          simp only [pageSize] at offset
          omega
        unfold CopyingMemory.mapped CopyingMemory.pageIndex
        rw [if_pos low, offset, Nat.mul_div_cancel _ (by decide)]
        unfold CopyingMemory.permOf at writable
        simp [writable]
      rw [CopyingMemory.touch_of_mapped data, CopyingMemory.touchData] at touched
      split at touched
      · next accessible =>
        obtain ⟨copied, paid⟩ := CopyingMemory.written_materializeAll written
          (fun page member => CopyingMemory.aligned_of_mem_accessPages member)
          fun page member => List.all_eq_true.mp accessible page member
        rw [Option.some.inj touched, ← all] at copied paid
        rw [went] at is
        obtain ⟨gas, mem⟩ := advance_state is
        rw [gas, mem]
        refine ⟨?_, ⟨copied.aligned, copied.states⟩, rfl⟩
        dsimp only at paid ⊢
        omega
      · cases touched
    · -- The store fails, and its touch found nothing to copy.
      rw [if_neg served] at went
      have none : stored = ∅ := if_pos (by rw [went]; rfl)
      have later : s.mem.firstTouch (computeAddr s.gpr rs1 imm) op.width true = false :=
        Bool.eq_false_iff.mpr fun first => served (fits first).symm
      obtain ⟨same, free⟩ := (CopyingMemory.touch_frame touched).2.2 later
      rw [went, same, free, Nat.sub_zero] at is
      cases is
      rw [none, Finset.union_empty]
      exact ⟨rfl, written, rfl⟩

/-- One step pays for its block or call, and for the pages that it is the first to store to. -/
theorem step_pays (predecoded : Predecoded prog) (keeps : KeepsCopies handler) {idx : prog.Idx}
    {s s' : ExecState Host} (ready : Ready prog idx s)
    (aligned : s.mem.base.toNat % pageSize = 0) {pages : Finset (BitVec 32)}
    (written : Written s.mem pages) (fits : StoreFits prog idx s)
    (is : (step prog handler idx s).state? = some s') :
    s.gas + cowCost * pages.card =
        s'.gas + fixedCost prog idx s + cowCost * (pages ∪ storedPages prog handler idx s).card ∧
      Written s'.mem (pages ∪ storedPages prog handler idx s) ∧ s'.mem.base = s.mem.base := by
  unfold step at is
  rcases gate_spec predecoded ready with ⟨paid, passed, gas, reserved⟩ | refused
  · rw [passed] at is
    dsimp only at is
    -- The gate pays for the block and leaves the memory alone.
    have frame := gate_frame passed
    have mem : paid.mem = s.mem := by rw [frame]
    have cost : fixedCost prog idx s = prog.predecode.blockCosts idx +
        if isEcallBlock (prog.fetch idx).inst ∧ ecallCost (prog.fetch idx).inst ≤ paid.gas then
          ecallCost (prog.fetch idx).inst
        else 0 := by
      unfold fixedCost
      rw [passed]
    have stored : storedPages prog handler idx s = match (prog.fetch idx).inst with
        | .store op rs1 _ imm =>
          if (execInst prog handler idx paid).faulted then ∅
          else (accessPages (computeAddr paid.gpr rs1 imm) op.width).toFinset
        | _ => ∅ := by
      unfold storedPages
      rw [passed]
    rw [← mem] at aligned written ⊢
    cases called : isEcallBlock (prog.fetch idx).inst with
    | true =>
      obtain ⟨pays, states, base⟩ := execInst_call_state keeps called is
      have none : storedPages prog handler idx s = ∅ := by
        rw [stored]
        cases shape : (prog.fetch idx).inst with
        | store op rs1 rs2 imm =>
          rw [shape] at called
          cases called
        | _ => rfl
      rw [none, Finset.union_empty, cost]
      simp only [called, true_and]
      refine ⟨by omega, ⟨written.aligned, fun i => ?_⟩, base⟩
      rw [states, written.states i]
      simp only [CopyingMemory.off, base]
    | false =>
      rw [cost]
      simp only [called, Bool.false_eq_true, false_and, if_false, Nat.add_zero]
      cases shape : (prog.fetch idx).inst with
      | store op rs1 rs2 imm =>
        have pays := execInst_store_state predecoded reserved aligned written shape
          (fits paid op rs1 rs2 imm passed shape) is
        simp only [stored, shape]
        exact ⟨by omega, pays.2⟩
      | load op rd rs1 imm =>
        simp only [stored, shape, Finset.union_empty]
        rcases execInst_load handler idx paid shape with ⟨-, went⟩ | ⟨states, touched, went⟩
        · rw [went] at is
          cases is
          exact ⟨by dsimp only; omega, written, rfl⟩
        · have kept := CopyingMemory.written_touch_read written touched
          rw [went] at is
          split at is
          · obtain ⟨sameGas, sameMem⟩ := advance_state is
            rw [sameGas, sameMem]
            exact ⟨by dsimp only; omega, kept, rfl⟩
          · cases is
            exact ⟨by dsimp only; omega, kept, rfl⟩
      | _ =>
        have kept := execInst_state called (by simp [shape]) (by simp [shape]) is
        simp only [stored, shape, Finset.union_empty]
        rw [kept.1, kept.2]
        exact ⟨by omega, written, rfl⟩
  · -- Nothing is charged without enough gas.
    rw [refused] at is
    cases is
    have free : fixedCost prog idx s = 0 := by
      unfold fixedCost
      rw [refused]
    have none : storedPages prog handler idx s = ∅ := by
      unfold storedPages
      rw [refused]
    rw [free, none, Finset.union_empty]
    exact ⟨rfl, written, rfl⟩

variable (handler) in
theorem exists_step_state (predecoded : Predecoded prog) {idx : prog.Idx} {s : ExecState Host}
    (ready : Ready prog idx s) : ∃ s', (step prog handler idx s).state? = some s' := by
  have safe : (step prog handler idx s).Safe prog idx s.gas := step_safe predecoded ready
  cases went : step prog handler idx s with
  | next target after => exact ⟨after, rfl⟩
  | exit reason after => exact ⟨after, rfl⟩
  | abort =>
    rw [went] at safe
    exact safe.elim

/-! ## Runs -/

variable (prog handler)

/-- What the blocks and calls of a run cost. -/
def fixedCosts : Nat → Outcome prog.Idx Host → Nat
  | n + 1, .next idx s => fixedCost prog idx s + fixedCosts n (step prog handler idx s)
  | _, _ => 0

/-- The pages that a run successfully stores to. -/
def writtenPages : Nat → Outcome prog.Idx Host → Finset (BitVec 32)
  | n + 1, .next idx s =>
    storedPages prog handler idx s ∪ writtenPages n (step prog handler idx s)
  | _, _ => ∅

/-- Every store of a run fits the buffer. -/
def StoresFit : Nat → Outcome prog.Idx Host → Prop
  | n + 1, .next idx s => StoreFits prog idx s ∧ StoresFit n (step prog handler idx s)
  | _, _ => True

variable {prog handler}

theorem follow_pays (predecoded : Predecoded prog) (keeps : KeepsCopies handler) (n : Nat)
    {idx : prog.Idx} {s : ExecState Host} (ready : Ready prog idx s)
    (aligned : s.mem.base.toNat % pageSize = 0) {pages : Finset (BitVec 32)}
    (written : Written s.mem pages) (fit : StoresFit prog handler n (.next idx s)) :
    ∃ s', (follow prog handler n (.next idx s)).state? = some s' ∧
      s.gas + cowCost * pages.card = s'.gas + fixedCosts prog handler n (.next idx s) +
        cowCost * (pages ∪ writtenPages prog handler n (.next idx s)).card := by
  induction n generalizing idx s pages with
  | zero =>
    refine ⟨s, rfl, ?_⟩
    simp only [fixedCosts, writtenPages, Finset.union_empty, Nat.add_zero]
  | succ n ih =>
    obtain ⟨fits, rest⟩ := fit
    obtain ⟨s', is⟩ := exists_step_state handler predecoded ready
    obtain ⟨pays, copied, base⟩ := step_pays predecoded keeps ready aligned written fits is
    simp only [follow, fixedCosts, writtenPages, ← Finset.union_assoc]
    cases went : step prog handler idx s with
    | next target after =>
      -- The rest of the run starts with the pages of this step.
      rw [went] at is rest
      cases is
      rw [← base] at aligned
      obtain ⟨final, ends, owed⟩ :=
        ih (step_next predecoded ready went).2.1 aligned copied rest
      exact ⟨final, ends, by omega⟩
    | exit reason after =>
      rw [went] at is
      obtain rfl : after = s' := Option.some.inj is
      refine ⟨after, by cases n <;> rfl, ?_⟩
      have ended : fixedCosts prog handler n (.exit reason after) = 0 ∧
          writtenPages prog handler n (.exit reason after) = ∅ := by
        cases n <;> exact ⟨rfl, rfl⟩
      rw [ended.1, ended.2, Finset.union_empty]
      omega
    | abort =>
      rw [went] at is
      cases is

end

/-- A run whose stores fit the buffer pays for its blocks, its calls and one copy of each page that
it stores to. -/
theorem run_pays_copies {Host : Type} (code : List Byte) (codeBase : BitVec 32) (memCycles : Nat)
    (handler : EcallHandler Host) (keeps : KeepsCopies handler) (s : ExecState Host)
    (fresh : ∀ i, s.mem.matState i = .notPresent) (aligned : s.mem.base.toNat % pageSize = 0)
    (n : Nat) :
    let prog := Program.new code codeBase memCycles
    StoresFit prog handler n (enter prog s) →
      ∃ s', (follow prog handler n (enter prog s)).state? = some s' ∧
        s.gas = s'.gas + fixedCosts prog handler n (enter prog s) +
          cowCost * (writtenPages prog handler n (enter prog s)).card := by
  intro prog fit
  have predecoded : Predecoded prog := Program.new_predecoded code codeBase memCycles
  have written : Written s.mem ∅ := by
    refine ⟨fun page member => absurd member (Finset.notMem_empty page), fun i => ?_⟩
    simp [fresh i]
  cases entered : enter prog s with
  | next idx start =>
    obtain ⟨rfl, started⟩ := enter_config (by rw [entered]; rfl)
    rw [entered] at fit
    obtain ⟨s', ends, owed⟩ := follow_pays predecoded keeps n (Or.inl started) aligned written fit
    refine ⟨s', ends, ?_⟩
    rw [Finset.empty_union] at owed
    exact owed
  | exit reason after =>
    -- A run that cannot enter is over.
    have same : after = s := by
      unfold enter at entered
      split at entered
      · split at entered
        · cases entered
        · cases entered
          rfl
      · cases entered
        rfl
    subst same
    refine ⟨after, by cases n <;> rfl, ?_⟩
    cases n <;> rfl
  | abort =>
    unfold enter at entered
    split at entered
    · split at entered <;> cases entered
    · cases entered

/-- The single store of the run copies the page. -/
theorem run_pays_copies_once :
    ∃ s', (follow (Program.new storeThenTrap 0 25) idleHandler 2
        (enter (Program.new storeThenTrap 0 25) (freshState 1000))).state? = some s' ∧
      1000 = s'.gas + 22 + cowCost * 1 := by
  have entered : enter (Program.new storeThenTrap 0 25) (freshState 1000) =
      .next ⟨0, by decide⟩ (freshState 1000) := rfl
  have storeFits : StoreFits (Program.new storeThenTrap 0 25) ⟨0, by decide⟩ (freshState 1000) := by
    intro paid op rs1 rs2 imm passed shape
    cases passed
    cases shape
    exact fun _ => ⟨by decide, by decide⟩
  have trapFits : ∀ s : ExecState Unit,
      StoreFits (Program.new storeThenTrap 0 25) ⟨1, by decide⟩ s :=
    fun s paid op rs1 rs2 imm passed shape => nomatch shape
  have fit : StoresFit (Program.new storeThenTrap 0 25) idleHandler 2
      (enter (Program.new storeThenTrap 0 25) (freshState 1000)) := by
    rw [entered]
    exact ⟨storeFits, trapFits _, trivial⟩
  exact run_pays_copies storeThenTrap 0 25 idleHandler (fun _ _ _ _ _ => ⟨rfl, rfl⟩)
    (freshState 1000) (fun _ => rfl) (by decide) 2 fit

/-- The run pays for two copies although its only store faults. -/
theorem run_pays_copies_fails :
    ∃ s', step (Program.new storeAround 0x400000 25) idleHandler ⟨0, by decide⟩
        ⟨fun _ => 0, 0, 1000, fullSpace, ()⟩ = .exit (.pageFault 0xFFFFF000#32) s' ∧
      storedPages (Program.new storeAround 0x400000 25) idleHandler ⟨0, by decide⟩
        ⟨fun _ => 0, 0, 1000, fullSpace, ()⟩ = ∅ ∧
      1000 = s'.gas + fixedCost (Program.new storeAround 0x400000 25) ⟨0, by decide⟩
        ⟨fun _ => 0, 0, 1000, fullSpace, ()⟩ + 2 * cowCost := by
  refine ⟨_, rfl, rfl, ?_⟩
  decide

end Jar
