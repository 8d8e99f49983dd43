import Jar.Proofs.GasSafety

/-! Loads and stores as a whole: what a first touch does before the bytes are accessed, what an
access reads or writes, and when one that faults leaves no trace. -/

namespace Jar

/-! ## First touches -/

namespace CopyingMemory

/-- Whether a page lies in the buffer and has a permission. -/
def mapped (mem : CopyingMemory) (page : BitVec 32) : Bool :=
  (mem.pageIndex page).any fun i => mem.perms i != .none

/-- Whether a touch changes the state of a page: it is writable in principle, and not yet as far as
the access needs it. -/
def fresh (mem : CopyingMemory) (isWrite : Bool) (page : BitVec 32) : Bool :=
  (mem.pageIndex page).any fun i => mem.perms i != .ro &&
    if isWrite then mem.matState i != .presentRw else mem.matState i == .notPresent

def rank : PageState → Nat
  | .notPresent => 0
  | .presentRo => 1
  | .presentRw => 2

variable {mem : CopyingMemory} {isWrite : Bool} {page : BitVec 32}

theorem mapped_of_accessible (open_ : mem.accessible isWrite page = true) :
    mem.mapped page = true := by
  unfold accessible at open_
  unfold mapped
  cases found : mem.pageIndex page with
  | none => simp [found] at open_
  | some i =>
    simp only [found, Bool.and_eq_true] at open_
    exact open_.1

theorem materialize_frame (mem : CopyingMemory) (isWrite : Bool) (page : BitVec 32) :
    ∃ states, (mem.materialize isWrite page).1 = { mem with matState := states } := by
  unfold materialize
  split
  · split
    · exact ⟨_, rfl⟩
    · split <;> exact ⟨_, rfl⟩
  · exact ⟨_, rfl⟩

theorem materialize_of_stale (stale : mem.fresh isWrite page = false) :
    mem.materialize isWrite page = (mem, 0) := by
  unfold materialize
  unfold fresh at stale
  cases found : mem.pageIndex page with
  | none => rfl
  | some i =>
    simp only [found, Option.any_some] at stale
    dsimp only
    split
    · rfl
    · next writable =>
      -- The state is already the one that the access leads to.
      have kept : chargeFor (mem.matState i) .unpinnedCapCow isWrite =
          some (0, mem.matState i) := by
        cases isWrite <;> cases state : mem.matState i <;>
          simp_all [chargeFor]
      rw [kept]
      dsimp only
      rw [Function.update_eq_self]

theorem rank_le_materialize (mem : CopyingMemory) (isWrite : Bool) (page : BitVec 32) (i : Nat) :
    rank (mem.matState i) ≤ rank ((mem.materialize isWrite page).1.matState i) := by
  unfold materialize
  split
  · split
    · exact Nat.le_refl _
    · split
      · next j _ _ _ charge next charged =>
        simp only
        by_cases here : i = j
        · subst here
          rw [Function.update_self]
          unfold chargeFor at charged
          cases isWrite <;> cases state : mem.matState i <;>
            simp [state] at charged <;> simp [← charged.2, rank]
        · rw [Function.update_of_ne here]
      · exact Nat.le_refl _
  · exact Nat.le_refl _

theorem rank_lt_materialize (touchedFirst : mem.fresh isWrite page = true) :
    ∃ i, rank (mem.matState i) < rank ((mem.materialize isWrite page).1.matState i) := by
  unfold fresh at touchedFirst
  cases found : mem.pageIndex page with
  | none => simp [found] at touchedFirst
  | some i =>
    simp only [found, Option.any_some, Bool.and_eq_true, bne_iff_ne] at touchedFirst
    obtain ⟨writable, behind⟩ := touchedFirst
    refine ⟨i, ?_⟩
    unfold materialize
    simp only [found, if_neg writable]
    cases isWrite <;> cases state : mem.matState i <;>
      simp_all [chargeFor, rank]

theorem materializeAll_frame (mem : CopyingMemory) (isWrite : Bool) (pages : List (BitVec 32)) :
    ∃ states, (mem.materializeAll isWrite pages).1 = { mem with matState := states } := by
  induction pages generalizing mem with
  | nil => exact ⟨_, rfl⟩
  | cons page rest ih =>
    obtain ⟨first, is⟩ := materialize_frame mem isWrite page
    obtain ⟨states, later⟩ := ih (mem.materialize isWrite page).1
    rw [is] at later
    refine ⟨states, ?_⟩
    rw [materializeAll]
    dsimp only
    rw [is, later]

theorem rank_le_materializeAll (mem : CopyingMemory) (isWrite : Bool) (pages : List (BitVec 32))
    (i : Nat) : rank (mem.matState i) ≤ rank ((mem.materializeAll isWrite pages).1.matState i) := by
  induction pages generalizing mem with
  | nil => exact Nat.le_refl _
  | cons page rest ih =>
    exact Nat.le_trans (rank_le_materialize mem isWrite page i) (ih _)

theorem materializeAll_of_stale {pages : List (BitVec 32)}
    (stale : ∀ page ∈ pages, mem.fresh isWrite page = false) :
    mem.materializeAll isWrite pages = (mem, 0) := by
  induction pages with
  | nil => rfl
  | cons page rest ih =>
    rw [materializeAll, materialize_of_stale (stale page (List.mem_cons_self ..))]
    dsimp only
    rw [ih fun page' member => stale page' (List.mem_cons_of_mem _ member)]
    rfl

theorem materializeAll_ne_of_fresh {pages : List (BitVec 32)}
    (touchedFirst : ∃ page ∈ pages, mem.fresh isWrite page = true) :
    (mem.materializeAll isWrite pages).1 ≠ mem := by
  intro same
  -- The first fresh page moves forward, and no later one moves it back.
  induction pages generalizing mem with
  | nil =>
    obtain ⟨page, member, -⟩ := touchedFirst
    cases member
  | cons page rest ih =>
    cases first : mem.fresh isWrite page with
    | true =>
      obtain ⟨i, moved⟩ := rank_lt_materialize first
      have later := rank_le_materializeAll (mem.materialize isWrite page).1 isWrite rest i
      have back : (((mem.materialize isWrite page).1.materializeAll isWrite rest).1).matState i =
          mem.matState i := congrFun (congrArg matState same) i
      rw [back] at later
      omega
    | false =>
      rw [materializeAll, materialize_of_stale first] at same
      obtain ⟨page', member, isFresh⟩ := touchedFirst
      rcases List.mem_cons.mp member with rfl | member
      · rw [first] at isFresh
        cases isFresh
      · exact ih ⟨page', member, isFresh⟩ same

/-! ## Which pages -/

/-- The page of an address. -/
abbrev pageOf (addr : BitVec 32) : BitVec 32 := addr &&& ~~~0xFFF#32

theorem pageOf_mem_accessPages (addr : BitVec 32) (width : Nat) :
    pageOf addr ∈ accessPages addr width := by
  unfold accessPages
  dsimp only
  split <;> exact List.mem_cons_self ..

theorem toNat_pageOf (addr : BitVec 32) : (pageOf addr).toNat = addr.toNat / 4096 * 4096 := by
  have bound := addr.isLt
  -- Clearing the offset is a shift down and up again.
  have cleared : addr &&& ~~~0xFFF#32 = (addr >>> 12) <<< 12 := by
    have bit : ∀ i (small : i < 32), (~~~0xFFF#32)[i] = decide (12 ≤ i) := by decide
    ext i small
    rw [BitVec.getElem_and, bit i small, BitVec.getElem_shiftLeft]
    by_cases low : i < 12
    · simp [low]
    · simp only [low, decide_false, Bool.not_false, Bool.true_and, show 12 ≤ i by omega,
        decide_true, Bool.and_true, BitVec.getElem_ushiftRight, BitVec.getLsbD_eq_getElem small,
        show 12 + (i - 12) = i by omega]
  rw [pageOf, cleared]
  simp only [BitVec.toNat_shiftLeft, BitVec.toNat_ushiftRight, Nat.shiftRight_eq_div_pow,
    Nat.shiftLeft_eq]
  omega

theorem off_pageOf (aligned : mem.base.toNat % pageSize = 0) (addr : BitVec 32) :
    mem.off (pageOf addr) = mem.off addr / pageSize * pageSize := by
  have bound := addr.isLt
  have baseBound := mem.base.isLt
  have page := toNat_pageOf addr
  unfold off
  rw [BitVec.toNat_sub, BitVec.toNat_sub, page]
  simp only [pageSize] at *
  omega

theorem touch_of_mapped {addr : BitVec 32} {width : Nat} (is : mem.mapped (pageOf addr) = true) :
    mem.touch addr width isWrite = mem.touchData (accessPages addr width) isWrite :=
  if_pos is

theorem touch_of_code {addr : BitVec 32} {width : Nat} (unmapped : mem.mapped (pageOf addr) = false)
    (code : mem.isCodePage (pageOf addr) = true) :
    mem.touch addr width isWrite =
      if mem.touchCode (accessPages addr width) isWrite then some (mem, 0) else none := by
  unfold touch
  unfold mapped at unmapped
  simp only [unmapped, Bool.false_eq_true, if_false, code, if_true]

theorem touch_of_neither {addr : BitVec 32} {width : Nat}
    (unmapped : mem.mapped (pageOf addr) = false) (other : mem.isCodePage (pageOf addr) = false) :
    mem.touch addr width isWrite = some (mem, 0) := by
  unfold touch
  unfold mapped at unmapped
  simp only [unmapped, Bool.false_eq_true, if_false, other]

/-- An access to pages that all may be accessed, at least one of them for the first time. -/
def firstTouch (mem : CopyingMemory) (addr : BitVec 32) (width : Nat) (isWrite : Bool) : Bool :=
  (accessPages addr width).all (mem.accessible isWrite) &&
    (accessPages addr width).any (mem.fresh isWrite)

/-- A touch changes the materialization at most, and only on the first access to a page. -/
theorem touch_frame {addr : BitVec 32} {width total : Nat} {after : CopyingMemory}
    (touched : mem.touch addr width isWrite = some (after, total)) :
    (∃ states, after = { mem with matState := states }) ∧
      (mem.firstTouch addr width isWrite = true → after ≠ mem) ∧
      (mem.firstTouch addr width isWrite = false → after = mem ∧ total = 0) := by
  cases data : mem.mapped (pageOf addr) with
  | true =>
    rw [touch_of_mapped data, touchData] at touched
    split at touched
    · next all =>
      have is := Option.some.inj touched
      obtain ⟨states, frame⟩ := materializeAll_frame mem isWrite (accessPages addr width)
      rw [is] at frame
      refine ⟨⟨states, frame⟩, fun first => ?_, fun later => ?_⟩
      · simp only [firstTouch, all, Bool.true_and, List.any_eq_true] at first
        have changed := materializeAll_ne_of_fresh first
        rwa [is] at changed
      · simp only [firstTouch, all, Bool.true_and, List.any_eq_false] at later
        have same := materializeAll_of_stale fun page member =>
          Bool.eq_false_iff.mpr (later page member)
        rw [is] at same
        exact Prod.mk.inj same
    · cases touched
  | false =>
    -- The first page cannot be accessed, and nothing is materialized.
    have closed : mem.firstTouch addr width isWrite = false := by
      rw [firstTouch, Bool.and_eq_false_iff]
      left
      rw [List.all_eq_false]
      refine ⟨pageOf addr, pageOf_mem_accessPages addr width, fun open_ => ?_⟩
      rw [mapped_of_accessible open_] at data
      cases data
    have kept : after = mem ∧ total = 0 := by
      cases code : mem.isCodePage (pageOf addr) with
      | true =>
        rw [touch_of_code data code] at touched
        split at touched
        · cases touched
          exact ⟨rfl, rfl⟩
        · cases touched
      | false =>
        rw [touch_of_neither data code] at touched
        cases touched
        exact ⟨rfl, rfl⟩
    refine ⟨⟨mem.matState, kept.1⟩, fun first => ?_, fun _ => kept⟩
    rw [closed] at first
    cases first

theorem firstTouch_of_refused {addr : BitVec 32} {width : Nat}
    (refused : mem.touch addr width isWrite = none) :
    mem.firstTouch addr width isWrite = false := by
  rw [firstTouch, Bool.and_eq_false_iff]
  left
  cases all : (accessPages addr width).all (mem.accessible isWrite) with
  | false => rfl
  | true =>
    have data := mapped_of_accessible
      (List.all_eq_true.mp all _ (pageOf_mem_accessPages addr width))
    rw [touch_of_mapped data, touchData, if_pos all] at refused
    cases refused

/-! ## Bytes -/

theorem leValue_congr {f g : Nat → Byte} {m n width : Nat}
    (same : ∀ k < width, f (m + k) = g (n + k)) : leValue f m width = leValue g n width := by
  induction width generalizing m n with
  | zero => rfl
  | succ width ih =>
    have head := same 0 (Nat.succ_pos _)
    rw [leValue, leValue, ih fun k below => ?_, show f m = g n from head]
    have next := same (k + 1) (Nat.succ_lt_succ below)
    rwa [Nat.add_right_comm m 1 k, Nat.add_right_comm n 1 k]

theorem writeLe_restated (mem : CopyingMemory) (states : Nat → PageState) (addr : BitVec 32)
    (width : Nat) (value : Word64) :
    ({ mem with matState := states } : CopyingMemory).writeLe addr width value =
      if mem.off addr + width ≤ mem.flatLen then
        some { mem with
          matState := states
          flatMem := fun i =>
            if mem.off addr ≤ i ∧ i < mem.off addr + width then
              (value >>> (8 * (i - mem.off addr))).setWidth 8
            else mem.flatMem i }
      else none :=
  rfl

/-- The offsets of consecutive addresses are consecutive, up to the end of the address space. -/
theorem off_add (mem : CopyingMemory) (addr : BitVec 32) {k : Nat}
    (within : mem.off addr + k < 2 ^ 32) :
    mem.off (addr + BitVec.ofNat 32 k) = mem.off addr + k := by
  have split : addr + BitVec.ofNat 32 k - mem.base = (addr - mem.base) + BitVec.ofNat 32 k := by
    rw [BitVec.sub_eq_add_neg, BitVec.sub_eq_add_neg]
    ac_rfl
  unfold off at within ⊢
  rw [split, BitVec.toNat_add, BitVec.toNat_ofNat]
  omega

end CopyingMemory

/-! ## Accesses -/

theorem LoadOp.width_le (op : LoadOp) : 0 < op.width ∧ op.width ≤ 8 := by cases op <;> decide

theorem StoreOp.width_le (op : StoreOp) : 0 < op.width ∧ op.width ≤ 8 := by cases op <;> decide

/-- A load or a store. -/
inductive MemInst where
  | load (op : LoadOp) (rd rs1 : RegIdx) (imm : BitVec 32)
  | store (op : StoreOp) (rs1 rs2 : RegIdx) (imm : BitVec 32)

def MemInst.inst : MemInst → Inst
  | load op rd rs1 imm => .load op rd rs1 imm
  | store op rs1 rs2 imm => .store op rs1 rs2 imm

section

variable {Host : Type} (prog : Program) (handler : EcallHandler Host) (idx : prog.Idx)
  (s : ExecState Host)

/-- The byte that a load takes from an address: from the buffer if the whole access lies in it, and
from the code region otherwise. -/
def loadedByte (addr : BitVec 32) (width : Nat) (a : BitVec 32) : Byte :=
  if s.mem.off addr + width ≤ s.mem.flatLen then s.mem.flatMem (s.mem.off a)
  else prog.code.getD (a - prog.codeBase).toNat 0

/-- A fault leaves everything but the recorded offset as it was. -/
def FaultsCleanly : Prop :=
  ∀ page after, execInst prog handler idx s = .exit (.pageFault page) after →
    after = { s with pc := after.pc }

/-- An access that does not fault accesses its bytes and no others: a load sets its register from
the bytes at the consecutive addresses, and a store sets these bytes. -/
def AccessesExactly : MemInst → Prop
  | .load op rd rs1 imm =>
    (∀ page after, execInst prog handler idx s ≠ .exit (.pageFault page) after) →
    let addr := computeAddr s.gpr rs1 imm
    ∃ states, execInst prog handler idx s = advance prog idx
      { s with
        mem := { s.mem with matState := states }
        gpr := regWrite s.gpr rd (op.extend (CopyingMemory.leValue
          (fun k => loadedByte prog s addr op.width (addr + BitVec.ofNat 32 k)) 0 op.width)) }
  | .store op rs1 rs2 imm =>
    (∀ page after, execInst prog handler idx s ≠ .exit (.pageFault page) after) →
    let addr := computeAddr s.gpr rs1 imm
    ∃ states bytes charge, execInst prog handler idx s = advance prog idx
      { s with
        mem := { s.mem with matState := states, flatMem := bytes }
        gas := s.gas - charge } ∧
      (∀ k < op.width, bytes (s.mem.off (addr + BitVec.ofNat 32 k)) =
        (regRead s.gpr rs2 >>> (8 * k)).setWidth 8) ∧
      ∀ i, (∀ k < op.width, i ≠ s.mem.off (addr + BitVec.ofNat 32 k)) → bytes i = s.mem.flatMem i

/-- No page is touched for the first time by an access that cannot be served although all of its
pages are accessible. -/
def FitsBuffer : MemInst → Prop
  | .load op _ rs1 imm =>
    let addr := computeAddr s.gpr rs1 imm
    s.mem.firstTouch addr op.width false = true →
      s.mem.off addr + op.width ≤ s.mem.flatLen ∨
        (readCode prog.code prog.codeBase addr op.width).isSome = true
  | .store op rs1 _ imm =>
    let addr := computeAddr s.gpr rs1 imm
    s.mem.firstTouch addr op.width true = true →
      s.mem.off addr + op.width ≤ s.mem.flatLen ∧ storeWritable s.mem addr op.width = true

variable {prog handler idx s}

theorem advance_ne_fault (state : ExecState Host) (page : BitVec 32) (after : ExecState Host) :
    advance prog idx state ≠ .exit (.pageFault page) after := by
  unfold advance
  split <;> simp

theorem readCode_eq (short : prog.code.length ≤ 2 ^ 32) {addr : BitVec 32} {width : Nat}
    {value : Word64} (read : readCode prog.code prog.codeBase addr width = some value) :
    value = CopyingMemory.leValue
      (fun k => prog.code.getD (addr + BitVec.ofNat 32 k - prog.codeBase).toNat 0) 0 width := by
  unfold readCode at read
  dsimp only at read
  split at read
  · split at read
    · next within =>
      rw [← Option.some.inj read]
      refine CopyingMemory.leValue_congr fun k below => ?_
      -- Offsets into the code do not wrap, since the region fits into the address space.
      have split : addr + BitVec.ofNat 32 (0 + k) - prog.codeBase =
          (addr - prog.codeBase) + BitVec.ofNat 32 k := by
        rw [Nat.zero_add, BitVec.sub_eq_add_neg, BitVec.sub_eq_add_neg]
        ac_rfl
      have offset : ((addr - prog.codeBase) + BitVec.ofNat 32 k).toNat =
          (addr - prog.codeBase).toNat + k := by
        rw [BitVec.toNat_add, BitVec.toNat_ofNat]
        omega
      rw [split, offset]
    · cases read
  · cases read

theorem loadValue_eq (short : prog.code.length ≤ 2 ^ 32) (space : s.mem.flatLen ≤ 2 ^ 32)
    {addr : BitVec 32} {width : Nat} {value : Word64}
    (found : loadValue prog s.mem addr width = some value) :
    value = CopyingMemory.leValue
      (fun k => loadedByte prog s addr width (addr + BitVec.ofNat 32 k)) 0 width := by
  unfold loadValue CopyingMemory.readLe at found
  unfold loadedByte
  split at found
  · next within =>
    -- The buffer holds the whole access.
    rw [Option.orElse_some, Option.some.injEq] at found
    rw [← found]
    refine CopyingMemory.leValue_congr fun k below => ?_
    rw [if_pos within, Nat.zero_add, s.mem.off_add addr (by omega)]
  · next outside =>
    rw [Option.orElse_none] at found
    rw [readCode_eq short found]
    refine CopyingMemory.leValue_congr fun k _ => ?_
    rw [if_neg outside]

variable (handler idx s) in
/-- A load within a reserved block, by the outcome of its touch and of its read. -/
theorem execInst_load {op : LoadOp} {rd rs1 : RegIdx} {imm : BitVec 32}
    (shape : (prog.fetch idx).inst = .load op rd rs1 imm) :
    let addr := computeAddr s.gpr rs1 imm
    (s.mem.touch addr op.width false = none ∧
      execInst prog handler idx s = pageFault prog idx s addr) ∨
    ∃ states, s.mem.touch addr op.width false = some ({ s.mem with matState := states }, 0) ∧
      execInst prog handler idx s =
        match loadValue prog s.mem addr op.width with
        | some value => advance prog idx
          { s with
            mem := { s.mem with matState := states }
            gpr := regWrite s.gpr rd (op.extend value) }
        | none => pageFault prog idx { s with mem := { s.mem with matState := states } } addr := by
  intro addr
  unfold execInst
  simp only [shape]
  unfold execLoad
  dsimp only
  cases touched : s.mem.touch addr op.width false with
  | none => exact .inl ⟨rfl, rfl⟩
  | some result =>
    obtain ⟨after, total⟩ := result
    obtain ⟨⟨states, frame⟩, -⟩ := CopyingMemory.touch_frame touched
    have free : total = 0 := Nat.le_zero.mp (CopyingMemory.touch_charge touched).2
    subst frame free
    refine .inr ⟨states, rfl, ?_⟩
    simp only [ExecState.charge, Nat.zero_le, if_true, Nat.sub_zero]
    rfl

variable (handler) in
/-- A store within a reserved block, by the outcome of its touch and of its checks. -/
theorem execInst_store (predecoded : Predecoded prog)
    (reserved : Reserved (restOfBlock prog idx) s) {op : StoreOp} {rs1 rs2 : RegIdx}
    {imm : BitVec 32} (shape : (prog.fetch idx).inst = .store op rs1 rs2 imm) :
    let addr := computeAddr s.gpr rs1 imm
    (s.mem.touch addr op.width true = none ∧
      execInst prog handler idx s = pageFault prog idx s addr) ∨
    ∃ states charge,
      s.mem.touch addr op.width true = some ({ s.mem with matState := states }, charge) ∧
      charge ≤ s.gas ∧
      execInst prog handler idx s =
        if storeWritable s.mem addr op.width ∧ s.mem.off addr + op.width ≤ s.mem.flatLen then
          advance prog idx
            { s with
              mem := { s.mem with
                matState := states
                flatMem := fun i =>
                  if s.mem.off addr ≤ i ∧ i < s.mem.off addr + op.width then
                    (regRead s.gpr rs2 >>> (8 * (i - s.mem.off addr))).setWidth 8
                  else s.mem.flatMem i }
              gas := s.gas - charge }
        else pageFault prog idx
          { s with mem := { s.mem with matState := states }, gas := s.gas - charge } addr := by
  intro addr
  have stores := predecoded.reserve_eq idx
  unfold execInst
  simp only [shape]
  unfold execStore
  dsimp only
  cases touched : s.mem.touch addr op.width true with
  | none => exact .inl ⟨rfl, rfl⟩
  | some result =>
    obtain ⟨after, total⟩ := result
    obtain ⟨⟨states, frame⟩, -⟩ := CopyingMemory.touch_frame touched
    obtain ⟨paid, charged, -⟩ := touch_reserved touched reserved fun _ => by simp [stores, shape]
    have covered : total ≤ s.gas := by
      by_contra short
      simp [ExecState.charge, short] at charged
    subst frame
    refine .inr ⟨states, total, rfl, covered, ?_⟩
    simp only [ExecState.charge, covered, if_true]
    -- The permissions and the length of the buffer are those of before.
    change (if storeWritable s.mem addr op.width = true then _ else _) = _
    by_cases writable : storeWritable s.mem addr op.width = true
    · rw [if_pos writable, CopyingMemory.writeLe_restated]
      by_cases within : s.mem.off addr + op.width ≤ s.mem.flatLen
      · rw [if_pos within, if_pos ⟨writable, within⟩]
      · rw [if_neg within, if_neg fun both => within both.2]
    · rw [if_neg writable, if_neg fun both => writable both.1]

theorem loadValue_isSome_iff {addr : BitVec 32} {width : Nat} :
    (loadValue prog s.mem addr width).isSome = true ↔
      s.mem.off addr + width ≤ s.mem.flatLen ∨
        (readCode prog.code prog.codeBase addr width).isSome = true := by
  unfold loadValue CopyingMemory.readLe
  split
  · next within => simp [within]
  · next outside => simp [outside]

theorem load_atomic_iff (short : prog.code.length ≤ 2 ^ 32) (space : s.mem.flatLen ≤ 2 ^ 32)
    {op : LoadOp} {rd rs1 : RegIdx} {imm : BitVec 32}
    (shape : (prog.fetch idx).inst = .load op rd rs1 imm) :
    FaultsCleanly prog handler idx s ∧ AccessesExactly prog handler idx s (.load op rd rs1 imm) ↔
      FitsBuffer prog s (.load op rd rs1 imm) := by
  unfold FaultsCleanly AccessesExactly FitsBuffer
  dsimp only
  rcases execInst_load handler idx s shape with ⟨refused, is⟩ | ⟨states, touched, is⟩
  · -- The touch faults, before anything changed.
    have closed := CopyingMemory.firstTouch_of_refused refused
    rw [is, closed]
    refine ⟨fun _ first => absurd first Bool.false_ne_true, fun _ =>
      ⟨fun page after faulted => ?_, fun fine => ?_⟩⟩
    · cases faulted
      rfl
    · exact absurd rfl (fine _ _)
  · rw [is, ← loadValue_isSome_iff]
    obtain ⟨-, changed, kept⟩ := CopyingMemory.touch_frame touched
    cases found : loadValue prog s.mem (computeAddr s.gpr rs1 imm) op.width with
    | some value =>
      refine ⟨fun _ _ => rfl, fun _ => ⟨fun page after faulted => ?_, fun _ => ⟨states, ?_⟩⟩⟩
      · exact absurd faulted (advance_ne_fault _ _ _)
      · dsimp only
        rw [loadValue_eq short space found]
    | none =>
      -- The read faults after the touch, which must not have changed anything.
      refine ⟨fun both first => ?_, fun fits => ⟨fun page after faulted => ?_, fun fine => ?_⟩⟩
      · have same := congrArg ExecState.mem (both.1 _ _ rfl)
        exact absurd same (changed first)
      · have later : s.mem.firstTouch (computeAddr s.gpr rs1 imm) op.width false = false :=
          Bool.eq_false_iff.mpr fun first => by cases fits first
        dsimp only at faulted
        rw [(kept later).1] at faulted
        cases faulted
        rfl
      · exact absurd rfl (fine _ _)

theorem store_atomic_iff (predecoded : Predecoded prog) (space : s.mem.flatLen ≤ 2 ^ 32)
    (reserved : Reserved (restOfBlock prog idx) s) {op : StoreOp} {rs1 rs2 : RegIdx}
    {imm : BitVec 32} (shape : (prog.fetch idx).inst = .store op rs1 rs2 imm) :
    FaultsCleanly prog handler idx s ∧ AccessesExactly prog handler idx s (.store op rs1 rs2 imm) ↔
      FitsBuffer prog s (.store op rs1 rs2 imm) := by
  unfold FaultsCleanly AccessesExactly FitsBuffer
  dsimp only
  rcases execInst_store handler predecoded reserved shape with
    ⟨refused, is⟩ | ⟨states, charge, touched, covered, is⟩
  · have closed := CopyingMemory.firstTouch_of_refused refused
    rw [is, closed]
    refine ⟨fun _ first => absurd first Bool.false_ne_true, fun _ =>
      ⟨fun page after faulted => ?_, fun fine => ?_⟩⟩
    · cases faulted
      rfl
    · exact absurd rfl (fine _ _)
  · obtain ⟨-, changed, kept⟩ := CopyingMemory.touch_frame touched
    rw [is]
    by_cases served : storeWritable s.mem (computeAddr s.gpr rs1 imm) op.width = true ∧
        s.mem.off (computeAddr s.gpr rs1 imm) + op.width ≤ s.mem.flatLen
    · rw [if_pos served]
      refine ⟨fun _ _ => served.symm, fun _ => ⟨fun page after faulted => ?_,
        fun _ => ⟨states, _, charge, rfl, fun k below => ?_, fun i other => ?_⟩⟩⟩
      · exact absurd faulted (advance_ne_fault _ _ _)
      · -- The written bytes are those of the value.
        rw [s.mem.off_add _ (by omega), if_pos ⟨by omega, by omega⟩, Nat.add_sub_cancel_left]
      · -- An offset in the range would be that of one of the addresses.
        refine if_neg fun range => ?_
        refine other (i - s.mem.off (computeAddr s.gpr rs1 imm)) (by omega) ?_
        rw [s.mem.off_add _ (by omega)]
        omega
    · -- The store faults after the touch, which must not have changed anything.
      rw [if_neg served]
      refine ⟨fun both first => ?_, fun fits => ⟨fun page after faulted => ?_, fun fine => ?_⟩⟩
      · have same := congrArg ExecState.mem (both.1 _ _ rfl)
        exact absurd same (changed first)
      · have later : s.mem.firstTouch (computeAddr s.gpr rs1 imm) op.width true = false :=
          Bool.eq_false_iff.mpr fun first => served (fits first).symm
        obtain ⟨same, free⟩ := kept later
        rw [same, free, Nat.sub_zero] at faulted
        cases faulted
        rfl
      · exact absurd rfl (fine _ _)

end

/-- In every run, a load or store that its block has paid for is atomic exactly if it fits the
buffer. -/
theorem access_atomic_iff {Host : Type} (code : List Byte) (codeBase : BitVec 32)
    (memCycles : Nat) (handler : EcallHandler Host) (s0 : ExecState Host) (n : Nat)
    (idx : (Program.new code codeBase memCycles).Idx) (s paid : ExecState Host)
    (reached : runConfig (Program.new code codeBase memCycles) handler s0 n = some (idx, s))
    (passed : gate (Program.new code codeBase memCycles) idx s = .next () paid)
    (short : code.length ≤ 2 ^ 32) (space : s.mem.flatLen ≤ 2 ^ 32) (access : MemInst)
    (shape : ((Program.new code codeBase memCycles).fetch idx).inst = access.inst) :
    let prog := Program.new code codeBase memCycles
    paid = { s with gas := s.gas - prog.predecode.blockCosts idx } ∧
      (FaultsCleanly prog handler idx paid ∧ AccessesExactly prog handler idx paid access ↔
        FitsBuffer prog paid access) := by
  intro prog
  have predecoded : Predecoded prog := Program.new_predecoded code codeBase memCycles
  obtain ⟨ready, -⟩ := runConfig_ready predecoded reached
  -- The gate charges the block and leaves the rest as it is.
  obtain ⟨after, opens, gas, reserved⟩ :=
    (gate_spec predecoded ready).resolve_right fun refused => nomatch passed.symm.trans refused
  cases passed.symm.trans opens
  have charged : paid = { s with gas := s.gas - prog.predecode.blockCosts idx } := by
    have frame := gate_frame passed
    dsimp only at gas
    rw [frame]
    congr 1
    omega
  refine ⟨charged, ?_⟩
  have space' : paid.mem.flatLen ≤ 2 ^ 32 := by
    rw [charged]
    exact space
  cases access with
  | load op rd rs1 imm => exact load_atomic_iff short space' shape
  | store op rs1 rs2 imm => exact store_atomic_iff predecoded space' reserved shape

theorem access_atomic_iff_first :
    FaultsCleanly (Program.new storeThenTrap 0 25) idleHandler ⟨0, by decide⟩
      { freshState 1000 with gas := 978 } ∧
    AccessesExactly (Program.new storeThenTrap 0 25) idleHandler ⟨0, by decide⟩
      { freshState 1000 with gas := 978 } (.store .sd 5 0 0) := by
  have reached : runConfig (Program.new storeThenTrap 0 25) idleHandler (freshState 1000) 0 =
      some (⟨0, by decide⟩, freshState 1000) := rfl
  have passed : gate (Program.new storeThenTrap 0 25) ⟨0, by decide⟩ (freshState 1000) =
      .next () { freshState 1000 with gas := 978 } := rfl
  have fits : FitsBuffer (Program.new storeThenTrap 0 25) { freshState 1000 with gas := 978 }
      (.store .sd 5 0 0) := fun _ => ⟨by decide, by decide⟩
  exact (access_atomic_iff storeThenTrap 0 25 idleHandler (freshState 1000) 0 ⟨0, by decide⟩
    (freshState 1000) { freshState 1000 with gas := 978 } reached passed (by decide) (by decide)
    (.store .sd 5 0 0) rfl).2.mpr fits

/-- The program `sd x0, -4(x0)` followed by a trap: the store wraps around the address space. -/
def storeAround : List Byte := [0x23, 0x3E, 0x00, 0xFE, 0x0B, 0x00, 0x00, 0x00]

/-- A memory whose writable pages fill the address space. -/
def fullSpace : CopyingMemory :=
  match (CopyingMemory.new 0).mapRegion 0 (2 ^ 32) .readWrite none with
  | .ok mem => mem
  | .error _ => CopyingMemory.new 0

/-- The store charges for two pages and materializes them, and then faults. -/
theorem access_atomic_fails :
    ∃ s paid after, runConfig (Program.new storeAround 0x400000 25) idleHandler
        ⟨fun _ => 0, 0, 1000, fullSpace, ()⟩ 0 = some (⟨0, by decide⟩, s) ∧
      gate (Program.new storeAround 0x400000 25) ⟨0, by decide⟩ s = .next () paid ∧
      execInst (Program.new storeAround 0x400000 25) idleHandler ⟨0, by decide⟩ paid =
        .exit (.pageFault 0xFFFFF000#32) after ∧
      after.gas + 512 = paid.gas ∧ after.mem.matState 0 ≠ paid.mem.matState 0 := by
  refine ⟨_, _, _, rfl, rfl, rfl, rfl, ?_⟩
  decide

end Jar
