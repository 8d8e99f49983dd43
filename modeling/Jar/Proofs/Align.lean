import Jar.Proofs.Encoding

/-! The alignment pass: only fallthroughs are inserted, jumps follow their targets, and every target
starts a gas block. -/

namespace Jar.Linker

/-! ## Code as encodings -/

def assemble (es : List Encoding) : List Byte := es.flatMap Encoding.bytes

/-- The encodings of some bytes, up to a cut-off one. -/
def disassemble : List Byte → List Encoding
  | b0 :: b1 :: rest =>
    if short : b0.extractLsb' 0 2 ≠ 0b11#2 then
      .half (b1 ++ b0) (Encoding.lengthBits_half b0 b1 ▸ short) :: disassemble rest
    else
      match rest with
      | b2 :: b3 :: rest =>
        .word (b3 ++ b2 ++ b1 ++ b0)
          ((Encoding.lengthBits_word b0 b1 b2 b3).trans (not_not.mp short)) :: disassemble rest
      | _ => []
  | _ => []

def located : Nat → List Encoding → List (Nat × Encoding)
  | _, [] => []
  | p, e :: es => (p, e) :: located (p + e.size) es

def startsFrom : Nat → List Encoding → List Nat
  | _, [] => []
  | p, e :: es => p :: startsFrom (p + e.size) es

@[simp]
theorem assemble_cons (e : Encoding) (es : List Encoding) :
    assemble (e :: es) = e.bytes ++ assemble es := rfl

theorem bounds_startsFrom {p q : Nat} {es : List Encoding} (member : q ∈ startsFrom p es) :
    p ≤ q ∧ q < p + (assemble es).length := by
  induction es generalizing p with
  | nil => exact absurd member List.not_mem_nil
  | cons e es ih =>
    have positive := e.two_le_size
    simp only [assemble_cons, List.length_append, Encoding.length_bytes]
    rcases List.mem_cons.mp member with rfl | later
    · omega
    · have := ih later
      omega

theorem sorted_startsFrom (p : Nat) (es : List Encoding) : (startsFrom p es).Pairwise (· < ·) := by
  induction es generalizing p with
  | nil => exact .nil
  | cons e es ih =>
    refine List.pairwise_cons.mpr ⟨fun q later => ?_, ih _⟩
    have := (bounds_startsFrom later).1
    have := e.two_le_size
    omega

theorem instructions_assemble (p : Nat) (e : Encoding) (es : List Encoding) :
    instructions p (assemble (e :: es)) =
      ⟨e.inst, p, p + e.size, false, rvGasMeta e.inst⟩ ::
        instructions (p + e.size) (assemble es) := by
  rw [assemble_cons, instructions_of_decode (Encoding.decode_bytes e _),
    List.drop_left' e.length_bytes]

theorem disassemble_bytes (e : Encoding) (rest : List Byte) :
    disassemble (e.bytes ++ rest) = e :: disassemble rest := by
  cases e with
  | half h short =>
    have low : (h.extractLsb' 0 8).extractLsb' 0 2 = h.extractLsb' 0 2 := by
      rw [← Encoding.lengthBits_half _ (h.extractLsb' 8 8), Encoding.append_halfBytes]
    simp only [Encoding.bytes, halfBytes, List.cons_append, List.nil_append]
    conv_lhs => unfold disassemble
    rw [dif_pos (low ▸ short)]
    simp only [Encoding.append_halfBytes]
  | word w long =>
    have low : (w.extractLsb' 0 8).extractLsb' 0 2 = w.extractLsb' 0 2 := by
      rw [← Encoding.lengthBits_half _ (w.extractLsb' 8 8), Encoding.lowHalf_word]
    simp only [Encoding.bytes, wordBytes, List.cons_append, List.nil_append]
    conv_lhs => unfold disassemble
    rw [dif_neg (not_not.mpr (low.trans long))]
    simp only [Encoding.append_wordBytes]

theorem disassemble_assemble (es : List Encoding) : disassemble (assemble es) = es := by
  induction es with
  | nil => rfl
  | cons e es ih => rw [assemble_cons, disassemble_bytes, ih]

/-- The lengths of the instructions that the executor decodes add up to the code. -/
def Whole (code : List Byte) : Prop :=
  ((instructions 0 code).map fun i => i.nextPc - i.pc).sum = code.length

instance (code : List Byte) : Decidable (Whole code) := inferInstanceAs (Decidable (_ = _))

theorem exists_assemble {code : List Byte} {p : Nat}
    (whole : ((instructions p code).map fun i => i.nextPc - i.pc).sum = code.length) :
    ∃ es, code = assemble es := by
  induction length : code.length using Nat.strongRecOn generalizing p code with
  | ind n ih =>
    cases decoded : decode code with
    | none =>
      rw [instructions_of_decode_none decoded] at whole
      exact ⟨[], List.eq_nil_of_length_eq_zero whole.symm⟩
    | some result =>
      obtain ⟨e, rest, rfl⟩ := Encoding.exists_of_decode decoded
      rw [instructions_of_decode (Encoding.decode_bytes e rest), List.drop_left' e.length_bytes,
        List.map_cons, List.sum_cons] at whole
      simp only [List.length_append, Encoding.length_bytes] at whole length
      have positive := e.two_le_size
      obtain ⟨es, rfl⟩ := ih rest.length (by omega) (p := p + e.size) (by omega) rfl
      exact ⟨e :: es, rfl⟩

/-! ## The scan -/

/-- What the linker collects from some encodings. -/
def scanned (n : Nat) : Nat → List Encoding → Scan
  | _, [] => ⟨[], [], []⟩
  | p, e :: es => (scanned n (p + e.size) es).push n p e.size (e.terminates, e.target p)

theorem scanFrom_bytes (n p : Nat) (e : Encoding) (rest : List Byte) :
    scanFrom n p (e.bytes ++ rest) =
      Scan.push n p e.size (e.terminates, e.target p) <$> scanFrom n (p + e.size) rest := by
  cases e with
  | half h short =>
    simp only [Encoding.bytes, halfBytes, List.cons_append, List.nil_append]
    conv_lhs => unfold scanFrom
    simp only [Encoding.append_halfBytes]
    rw [if_pos short, Encoding.classifyHalf_eq p h short]
    rfl
  | word w long =>
    simp only [Encoding.bytes, wordBytes, List.cons_append, List.nil_append]
    conv_lhs => unfold scanFrom
    simp only [Encoding.lowHalf_word, Encoding.append_wordBytes]
    rw [if_neg (not_not.mpr long), Encoding.classifyWord_eq p w long]
    rfl

theorem scanFrom_assemble (n p : Nat) (es : List Encoding) :
    scanFrom n p (assemble es) = pure (scanned n p es) := by
  induction es generalizing p with
  | nil => rfl
  | cons e es ih => rw [assemble_cons, scanFrom_bytes, ih, map_pure, scanned]

@[simp]
theorem instStarts_scanned (n p : Nat) (es : List Encoding) :
    (scanned n p es).instStarts = startsFrom p es := by
  induction es generalizing p with
  | nil => rfl
  | cons e es ih => simp [scanned, Scan.push, startsFrom, ih]

theorem mem_staticEdges_scanned {n p q r : Nat} {e : Encoding} {es : List Encoding}
    (member : (q, e) ∈ located p es) (jumps : e.target q = some (r : Int)) (within : r < n) :
    (q, r) ∈ (scanned n p es).staticEdges := by
  induction es generalizing p with
  | nil => exact absurd member List.not_mem_nil
  | cons first es ih =>
    simp only [scanned, Scan.push]
    rcases List.mem_cons.mp member with same | later
    · cases same
      simp only [jumps]
      rw [if_pos (by omega), Int.toNat_natCast]
      exact List.mem_cons_self
    · -- The edges of later encodings are kept, with or without one of the first.
      have kept := ih later
      split
      · split
        · exact List.mem_cons_of_mem _ kept
        · exact kept
      · exact kept

/-! ## Where to inject -/

theorem mem_foldl_addTarget {s : Scan} {set : SortedMap Nat Unit} {targets : List Nat} {q : Nat} :
    (q, ()) ∈ (targets.foldl (addTarget s) set).entries ↔
      (q, ()) ∈ set.entries ∨
        q ∈ targets ∧ q ∉ 0 :: s.postTerminator ∧ q ∈ s.instStarts := by
  induction targets generalizing set with
  | nil => simp
  | cons target targets ih =>
    rw [List.foldl_cons, ih]
    have added : (q, ()) ∈ (addTarget s set target).entries ↔ (q, ()) ∈ set.entries ∨
        q = target ∧ q ∉ 0 :: s.postTerminator ∧ q ∈ s.instStarts := by
      unfold addTarget
      split
      next needed =>
        rw [SortedMap.insert, SortedMap.mem_insertEntry set.sorted, Prod.mk.injEq]
        grind
      next needless => grind
    rw [added, List.mem_cons]
    grind

/-- The offsets that get a fallthrough are targets that do not start a block yet. -/
theorem mem_needsInject {n : Nat} {s : Scan} {extraTargets : List Nat} {q : Nat} :
    (q, ()) ∈ (needsInject n s extraTargets).entries ↔
      (q ∈ s.staticEdges.map (·.2) ∨ q ∈ extraTargets ∧ q < n) ∧
        q ∉ 0 :: s.postTerminator ∧ q ∈ s.instStarts := by
  rw [needsInject, mem_foldl_addTarget, mem_foldl_addTarget, List.mem_filter]
  have fresh : (q, ()) ∉ (SortedMap.empty : SortedMap Nat Unit).entries := List.not_mem_nil
  simp only [decide_eq_true_iff]
  grind

/-! ## The new layout -/

def fallthroughEncoding : Encoding := .word encodeCustom0Fallthrough (by decide)

theorem inst_fallthroughEncoding : fallthroughEncoding.inst = .fallthrough := by decide +kernel

/-- The fallthrough before an offset, if there is one. -/
def injected (inj : Nat → Bool) (p : Nat) : List Encoding :=
  if inj p then [fallthroughEncoding] else []

/-- The encodings with a fallthrough before each marked offset. -/
def spread (inj : Nat → Bool) : Nat → List Encoding → List Encoding
  | _, [] => []
  | p, e :: es => injected inj p ++ e :: spread inj (p + e.size) es

/-- Where the encodings are among the fallthroughs. -/
def places (inj : Nat → Bool) : Nat → Nat → List Encoding → List (Nat × Nat)
  | _, _, [] => []
  | p, p', e :: es =>
    let p' := p' + (assemble (injected inj p)).length
    (p, p') :: places inj (p + e.size) (p' + e.size) es

theorem length_injected (inj : Nat → Bool) (p : Nat) :
    (assemble (injected inj p)).length = if inj p then 4 else 0 := by
  unfold injected
  split <;> rfl

theorem assemble_append (es es' : List Encoding) :
    assemble (es ++ es') = assemble es ++ assemble es' := List.flatMap_append

theorem map_fst_places (inj : Nat → Bool) (p p' : Nat) (es : List Encoding) :
    (places inj p p' es).map (·.1) = startsFrom p es := by
  induction es generalizing p p' with
  | nil => rfl
  | cons e es ih => simp [places, startsFrom, ih]

/-- Up to an offset there is at most one fallthrough for each encoding. -/
theorem bounds_places {inj : Nat → Bool} {p p' : Nat} {es : List Encoding} {a : Nat × Nat}
    (member : a ∈ places inj p p' es) :
    p ≤ a.1 ∧ p' ≤ a.2 ∧ a.2 + 3 * p ≤ p' + 3 * a.1 + 4 := by
  induction es generalizing p p' with
  | nil => exact absurd member List.not_mem_nil
  | cons e es ih =>
    have positive := e.two_le_size
    have short : (assemble (injected inj p)).length ≤ 4 := by
      rw [length_injected]
      split <;> omega
    rcases List.mem_cons.mp member with rfl | later
    · simp only
      omega
    · have := ih later
      omega

/-- Offsets keep their order, and distances at most triple. -/
theorem pairwise_places (inj : Nat → Bool) (p p' : Nat) (es : List Encoding) :
    (places inj p p' es).Pairwise fun a b =>
      a.1 < b.1 ∧ a.2 < b.2 ∧ b.2 + 3 * a.1 ≤ a.2 + 3 * b.1 := by
  induction es generalizing p p' with
  | nil => exact .nil
  | cons e es ih =>
    refine List.pairwise_cons.mpr ⟨fun b later => ?_, ih _ _⟩
    -- An encoding is at least two bytes long, which makes up for the fallthrough behind it.
    have positive := e.two_le_size
    have := bounds_places later
    simp only
    omega

theorem even_places {inj : Nat → Bool} {p p' : Nat} {es : List Encoding} {a : Nat × Nat}
    (member : a ∈ places inj p p' es) (even : p' % 2 = 0) : a.2 % 2 = 0 := by
  induction es generalizing p p' with
  | nil => exact absurd member List.not_mem_nil
  | cons e es ih =>
    have evenSize := e.size_even
    have evenAt : (p' + (assemble (injected inj p)).length) % 2 = 0 := by
      rw [length_injected]
      split <;> omega
    rcases List.mem_cons.mp member with rfl | later
    · exact evenAt
    · exact ih later (by omega)

theorem inject_filter (inj : Nat → Bool) {p : Nat} {later : List Nat} (ahead : ∀ q ∈ later, p < q)
    (newCode : List Byte) :
    inject p ((p :: later).filter inj) newCode =
      (later.filter inj, newCode ++ assemble (injected inj p)) := by
  -- The next pending injection is at a later offset.
  have stop : ∀ newCode, inject p (later.filter inj) newCode = (later.filter inj, newCode) := by
    intro newCode
    cases pending : later.filter inj with
    | nil => rfl
    | cons q rest =>
      have member : q ∈ later.filter inj := pending ▸ List.mem_cons_self
      have := ahead q (List.mem_filter.mp member).1
      rw [inject, if_neg (by omega)]
  unfold injected
  rw [List.filter_cons]
  split
  · rw [inject, if_pos rfl, stop]
    simp [assemble, fallthroughEncoding, Encoding.bytes]
  · rw [stop]
    simp [assemble]

theorem startsFrom_headD (p : Nat) (es : List Encoding) :
    (startsFrom p es).headD (p + (assemble es).length) = p := by
  cases es <;> rfl

/-- The layout puts the fallthroughs between the encodings and notes where these are. -/
theorem layout_assemble (inj : Nat → Bool) (es : List Encoding) (front newCode : List Byte)
    (offsetMap : SortedMap Nat Nat)
    (before : ∀ a ∈ offsetMap.entries, a.1 < front.length) :
    let result := layout (front ++ assemble es) (startsFrom front.length es)
      ((startsFrom front.length es).filter inj) newCode offsetMap
    result.1 = newCode ++ assemble (spread inj front.length es) ∧
      result.2.entries = offsetMap.entries ++ places inj front.length newCode.length es := by
  induction es generalizing front newCode offsetMap with
  | nil => simp [startsFrom, layout, spread, places, assemble]
  | cons e es ih =>
    have positive := e.two_le_size
    have ahead : ∀ q ∈ startsFrom (front.length + e.size) es, front.length < q := by
      intro q later
      have := (bounds_startsFrom later).1
      omega
    have next : (startsFrom (front.length + e.size) es).headD
        (front ++ assemble (e :: es)).length = front.length + e.size := by
      have total : (front ++ assemble (e :: es)).length
          = front.length + e.size + (assemble es).length := by
        simp
        omega
      rw [total, startsFrom_headD]
    have copied : ((front ++ assemble (e :: es)).drop front.length).take
        (front.length + e.size - front.length) = e.bytes := by
      rw [List.drop_left, Nat.add_sub_cancel_left, assemble_cons,
        List.take_left' e.length_bytes]
    have inserted : (offsetMap.insert front.length
        (newCode ++ assemble (injected inj front.length)).length).entries =
          offsetMap.entries ++
            [(front.length, (newCode ++ assemble (injected inj front.length)).length)] :=
      SortedMap.insertEntry_of_lt before _
    have split : front ++ assemble (e :: es) = (front ++ e.bytes) ++ assemble es := by simp
    have moved : front.length + e.size = (front ++ e.bytes).length := by simp
    simp only [startsFrom, layout, inject_filter inj ahead, next, copied]
    rw [split, moved]
    -- The rest of the code is laid out behind the first encoding.
    obtain ⟨bytes, entries⟩ := ih (front ++ e.bytes)
      (newCode ++ assemble (injected inj front.length) ++ e.bytes)
      (offsetMap.insert front.length (newCode ++ assemble (injected inj front.length)).length) (by
        rw [inserted]
        intro a member
        rcases List.mem_append.mp member with old | new
        · have := before a old
          omega
        · obtain rfl := List.mem_singleton.mp new
          simp only
          omega)
    rw [bytes, entries, inserted, ← moved]
    simp [spread, places, assemble_append, Nat.add_assoc]

/-! ## Block starts -/

theorem lt_of_mem_postTerminator {n p q : Nat} {es : List Encoding}
    (member : q ∈ (scanned n p es).postTerminator) : p < q := by
  induction es generalizing p with
  | nil => exact absurd member List.not_mem_nil
  | cons e es ih =>
    have positive := e.two_le_size
    simp only [scanned, Scan.push] at member
    split at member
    · rcases List.mem_cons.mp member with rfl | later
      · omega
      · have := ih later
        omega
    · have := ih member
      omega

/-- Instructions of the same lengths that still end their blocks. -/
def Kept (e e' : Encoding) : Prop :=
  e'.size = e.size ∧ (e.terminates → isTerminator e'.inst)

/-- The executor's view of an encoding behind its fallthrough. -/
theorem markBlockStarts_injected (inj : Nat → Bool) (b : Bool) (p p' : Nat) (e : Encoding)
    (es : List Encoding) :
    ∃ before i, markBlockStarts b (instructions p' (assemble (injected inj p ++ e :: es))) =
        before ++ i :: markBlockStarts (isTerminator e.inst)
          (instructions (p' + (assemble (injected inj p)).length + e.size) (assemble es)) ∧
      i.pc = p' + (assemble (injected inj p)).length ∧ (inj p ∨ b → i.isGasBlockStart) := by
  unfold injected
  split
  next marked =>
    have length : (assemble [fallthroughEncoding]).length = fallthroughEncoding.size := by
      simp [assemble]
    rw [List.cons_append, List.nil_append, instructions_assemble, instructions_assemble, length,
      inst_fallthroughEncoding, markBlockStarts, markBlockStarts]
    exact ⟨[_], _, rfl, rfl, fun _ => rfl⟩
  next unmarked =>
    rw [List.nil_append, instructions_assemble, markBlockStarts]
    refine ⟨[], _, rfl, rfl, fun starts => ?_⟩
    rw [starts.resolve_left unmarked]
    rfl

theorem exists_blockStart {inj : Nat → Bool} {n p p' : Nat} {b : Bool} {es es' : List Encoding}
    (kept : List.Forall₂ Kept es es') {a : Nat × Nat} (member : a ∈ places inj p p' es)
    (starts : inj a.1 ∨ a.1 = p ∧ b ∨ a.1 ∈ (scanned n p es).postTerminator) :
    ∃ i ∈ markBlockStarts b (instructions p' (assemble (spread inj p es'))),
      i.pc = a.2 ∧ i.isGasBlockStart := by
  induction kept generalizing p p' b with
  | nil => exact absurd member List.not_mem_nil
  | @cons e e' es es' same _ ih =>
    obtain ⟨size, ends⟩ := same
    have positive := e.two_le_size
    obtain ⟨before, i, view, pc, starting⟩ :=
      markBlockStarts_injected inj b p p' e' (spread inj (p + e'.size) es')
    rw [spread, view]
    rcases List.mem_cons.mp member with rfl | later
    · refine ⟨i, List.mem_append_right _ List.mem_cons_self, pc, starting ?_⟩
      rcases starts with marked | ⟨-, first⟩ | behind
      · exact .inl marked
      · exact .inr first
      · exact absurd (lt_of_mem_postTerminator behind) (Nat.lt_irrefl p)
    · have ahead := (bounds_places later).1
      -- The first encoding can make the one behind it start a block.
      have starts' : inj a.1 ∨ a.1 = p + e.size ∧ isTerminator e'.inst ∨
          a.1 ∈ (scanned n (p + e.size) es).postTerminator := by
        rcases starts with marked | ⟨first, -⟩ | behind
        · exact .inl marked
        · omega
        · simp only [scanned, Scan.push] at behind
          split at behind
          next terminated =>
            rcases List.mem_cons.mp behind with next | behind
            · exact .inr (.inl ⟨next, ends terminated.1⟩)
            · exact .inr (.inr behind)
          next => exact .inr (.inr behind)
      obtain ⟨j, found, at', started⟩ := ih later starts'
      rw [size]
      exact ⟨j, List.mem_append_right _ (List.mem_cons_of_mem _ found), at', started⟩

/-! ## Relocation of the code -/

/-- Some encodings with only fallthroughs between them and their jumps moved along a map. -/
inductive Inserted (map : Nat → Option Nat) :
    Nat → Nat → List Encoding → List Encoding → Prop where
  | nil {p p' : Nat} : Inserted map p p' [] []
  | fallthrough {p p' : Nat} {es es' : List Encoding}
      (rest : Inserted map p (p' + fallthroughEncoding.size) es es') :
      Inserted map p p' es (fallthroughEncoding :: es')
  | instruction {p p' : Nat} {e e' : Encoding} {es es' : List Encoding} (at' : map p = some p')
      (relocated : Relocated map p p' e e')
      (rest : Inserted map (p + e.size) (p' + e'.size) es es') :
      Inserted map p p' (e :: es) (e' :: es')

theorem Inserted.injected {map : Nat → Option Nat} {inj : Nat → Bool} {p p' : Nat}
    {es es' : List Encoding}
    (rest : Inserted map p (p' + (assemble (injected inj p)).length) es es') :
    Inserted map p p' es (Linker.injected inj p ++ es') := by
  unfold Linker.injected at rest ⊢
  split
  next marked =>
    rw [if_pos marked] at rest
    exact .fallthrough rest
  next unmarked =>
    rw [if_neg unmarked] at rest
    exact rest

theorem splice_append (front bytes back new : List Byte) (same : new.length = bytes.length) :
    splice (front ++ (bytes ++ back)) front.length new = front ++ (new ++ back) := by
  rw [splice, List.take_left, same, ← List.drop_drop, List.drop_left, List.drop_left]

section

variable {offsetMap : SortedMap Nat Nat}

/-- The linker rewrites one instruction in its place. -/
theorem relocateAt_eq_pure {p : Nat} {e : Encoding} {front back newCode : List Byte}
    (at' : offsetMap.lookup p = some front.length) (reach : Reach offsetMap.lookup p front.length e)
    (ran : relocateAt offsetMap (front ++ (e.bytes ++ back)) p = pure newCode) :
    ∃ e', Relocated offsetMap.lookup p front.length e e' ∧
      newCode = front ++ (e'.bytes ++ back) := by
  simp only [relocateAt, at'] at ran
  obtain ⟨lo, read, ran⟩ := Attempt.bind_eq_pure.mp ran
  simp only [readHalf, List.drop_left] at read
  cases e with
  | half h short =>
    simp only [Encoding.bytes, halfBytes, List.cons_append, List.nil_append,
      Encoding.append_halfBytes] at read
    rw [← Attempt.pure_inj.mp read, if_pos short] at ran
    obtain ⟨h', moved, ran⟩ := Attempt.bind_eq_pure.mp ran
    obtain ⟨short', relocated⟩ := relocateHalf_eq_pure reach moved
    exact ⟨_, relocated, (Attempt.pure_inj.mp ran).symm.trans (splice_append _ _ _ _ rfl)⟩
  | word w long =>
    simp only [Encoding.bytes, wordBytes, List.cons_append, List.nil_append] at read
    rw [← Attempt.pure_inj.mp read, if_neg (not_not.mpr ((Encoding.lowHalf_word w).trans long))]
      at ran
    obtain ⟨w₀, read, ran⟩ := Attempt.bind_eq_pure.mp ran
    simp only [readWord, List.drop_left, Encoding.bytes, wordBytes, List.cons_append,
      List.nil_append, Encoding.append_wordBytes] at read
    rw [← Attempt.pure_inj.mp read] at ran
    obtain ⟨w', moved, ran⟩ := Attempt.bind_eq_pure.mp ran
    obtain ⟨long', relocated⟩ := relocateWord_eq_pure reach moved
    exact ⟨_, relocated, (Attempt.pure_inj.mp ran).symm.trans (splice_append _ _ _ _ rfl)⟩

/-- The linker rewrites all instructions in their places. -/
theorem foldlM_relocateAt {inj : Nat → Bool} {p : Nat} {es : List Encoding}
    (front : List Byte) {newCode : List Byte}
    (known : ∀ a ∈ places inj p front.length es, offsetMap.lookup a.1 = some a.2)
    (reach : ∀ q q' e, (q, e) ∈ located p es → offsetMap.lookup q = some q' →
      Reach offsetMap.lookup q q' e)
    (ran : (startsFrom p es).foldlM (relocateAt offsetMap) (front ++ assemble (spread inj p es)) =
      pure newCode) :
    ∃ es', newCode = front ++ assemble (spread inj p es') ∧
      Inserted offsetMap.lookup p front.length es (spread inj p es') ∧
      List.Forall₂ Kept es es' := by
  induction es generalizing p front with
  | nil =>
    exact ⟨[], (Attempt.pure_inj.mp ran).symm, .nil, .nil⟩
  | cons e es ih =>
    have at' : offsetMap.lookup p = some (front ++ assemble (injected inj p)).length := by
      rw [List.length_append]
      exact known _ List.mem_cons_self
    have code : front ++ assemble (spread inj p (e :: es)) =
        (front ++ assemble (injected inj p)) ++
          (e.bytes ++ assemble (spread inj (p + e.size) es)) := by
      simp [spread, assemble_append]
    rw [startsFrom, List.foldlM_cons, code] at ran
    obtain ⟨next, first, ran⟩ := Attempt.bind_eq_pure.mp ran
    obtain ⟨e', relocated, rfl⟩ := relocateAt_eq_pure at'
      (reach p _ e List.mem_cons_self at') first
    -- The rest of the code follows behind the rewritten instruction.
    have length : (front ++ assemble (injected inj p) ++ e'.bytes).length =
        front.length + (assemble (injected inj p)).length + e.size := by
      simp [relocated.size, Nat.add_assoc]
    rw [← List.append_assoc] at ran
    obtain ⟨es', code', inserted, kept⟩ := ih _
      (fun a later => known a (List.mem_cons_of_mem _ (length ▸ later)))
      (fun q q' e₀ later => reach q q' e₀ (List.mem_cons_of_mem _ later)) ran
    refine ⟨e' :: es', ?_, ?_, .cons ⟨relocated.size, relocated.isTerminator⟩ kept⟩
    · rw [code', spread, relocated.size]
      simp [assemble_append]
    · rw [spread, relocated.size]
      rw [List.length_append] at at' relocated
      refine Inserted.injected (.instruction at' relocated ?_)
      rw [relocated.size, ← length]
      exact inserted

end

/-! ## The pass -/

/-- The static targets are instructions. -/
def OnBoundary (es : List Encoding) : Prop :=
  ∀ x ∈ located 0 es, ∀ t ∈ x.2.target x.1, ∃ q ∈ startsFrom 0 es, t = (q : Int)

instance (es : List Encoding) : Decidable (OnBoundary es) :=
  inferInstanceAs (Decidable (∀ x ∈ located 0 es, ∀ t ∈ x.2.target x.1, _))

/-- A jump leads to an offset. -/
def StaticTarget (es : List Encoding) (q : Nat) : Prop :=
  ∃ p e, (p, e) ∈ located 0 es ∧ e.target p = some (q : Int)

def StartsBlock (code : List Byte) (memCycles q : Nat) : Prop :=
  ∃ i ∈ (predecodeRvWithMemCycles code memCycles).insts, i.pc = q ∧ i.isGasBlockStart

section

variable {inj : Nat → Bool} {es : List Encoding} {offsetMap : SortedMap Nat Nat}
  (entries : offsetMap.entries = places inj 0 0 es)
include entries

/-- The map knows where every instruction went. -/
theorem exists_place {q : Nat} (member : q ∈ startsFrom 0 es) :
    ∃ q', offsetMap.lookup q = some q' ∧ (q, q') ∈ places inj 0 0 es := by
  rw [← map_fst_places inj 0 0 es] at member
  obtain ⟨⟨_, q'⟩, placed, rfl⟩ := List.mem_map.mp member
  exact ⟨q', SortedMap.lookup_eq_some.mpr (entries ▸ placed), placed⟩

/-- The distance of two instructions at most triples. -/
theorem distance_places {p p' q q' : Nat} (atP : offsetMap.lookup p = some p')
    (atQ : offsetMap.lookup q = some q') : |(q' : Int) - p'| ≤ 3 * |(q : Int) - p| := by
  have symm : Std.Symm fun a b : Nat × Nat =>
      |(b.2 : Int) - a.2| ≤ 3 * |(b.1 : Int) - a.1| :=
    ⟨fun a b near => by rwa [abs_sub_comm (a.2 : Int), abs_sub_comm (a.1 : Int)]⟩
  have near : (places inj 0 0 es).Pairwise fun a b =>
      |(b.2 : Int) - a.2| ≤ 3 * |(b.1 : Int) - a.1| := by
    refine (pairwise_places inj 0 0 es).imp fun {a b} ordered => ?_
    rw [abs_of_nonneg (by omega), abs_of_nonneg (by omega)]
    omega
  rw [SortedMap.lookup_eq_some, entries] at atP atQ
  exact near.forall_of_forall (fun _ _ => by simp) atP atQ

/-- The linker's casts do not lose anything. -/
theorem reach_places (onBoundary : OnBoundary es) {p p' : Nat} {e : Encoding}
    (member : (p, e) ∈ located 0 es) (at' : offsetMap.lookup p = some p') :
    Reach offsetMap.lookup p p' e where
  onBoundary t jumps := by
    obtain ⟨q, start, rfl⟩ := onBoundary (p, e) member t jumps
    obtain ⟨q', moved, -⟩ := exists_place entries start
    exact ⟨q, q', rfl, moved⟩
  near q q' jumps moved := by
    obtain ⟨imm, decoded, target⟩ := Option.map_eq_some_iff.mp jumps
    have := Encoding.imm_bounds decoded
    have near : |(q : Int) - p| ≤ 2 ^ 20 := abs_le.mpr (by omega)
    have := abs_le.mp (distance_places entries at' moved)
    omega
  even q q' moved := by
    rw [SortedMap.lookup_eq_some, entries] at at' moved
    have := even_places at' rfl
    have := even_places moved rfl
    simp only at *
    omega

theorem startsBlock_of_places {n : Nat} {es' : List Encoding} (kept : List.Forall₂ Kept es es')
    {q : Nat} (member : q ∈ startsFrom 0 es)
    (starts : inj q ∨ q ∈ 0 :: (scanned n 0 es).postTerminator) :
    ∃ q', offsetMap.lookup q = some q' ∧
      ∀ memCycles, StartsBlock (assemble (spread inj 0 es')) memCycles q' := by
  obtain ⟨q', moved, placed⟩ := exists_place entries member
  refine ⟨q', moved, fun memCycles => exists_blockStart (n := n) (b := true) kept placed ?_⟩
  rcases starts with marked | starts
  · exact .inl marked
  · rcases List.mem_cons.mp starts with first | behind
    · exact .inr (.inl ⟨first, rfl⟩)
    · exact .inr (.inr behind)

end

/-- The linker marks the targets that do not start a block yet. -/
theorem starts_of_target {es : List Encoding} {extraTargets : List Nat} {q : Nat}
    (member : q ∈ startsFrom 0 es) (target : StaticTarget es q ∨ q ∈ extraTargets) :
    let s := scanned (assemble es).length 0 es
    (q, ()) ∈ (needsInject (assemble es).length s extraTargets).entries ∨
      q ∈ 0 :: s.postTerminator := by
  intro s
  have within := (bounds_startsFrom member).2
  rw [mem_needsInject]
  by_cases starts : q ∈ 0 :: s.postTerminator
  · exact .inr starts
  · refine .inl ⟨?_, starts, (instStarts_scanned _ _ es).symm ▸ member⟩
    rcases target with ⟨p, e, jump, jumps⟩ | extra
    · exact .inl (List.mem_map_of_mem (mem_staticEdges_scanned jump jumps (by omega)))
    · exact .inr ⟨extra, by omega⟩

theorem spread_false (p : Nat) (es : List Encoding) : spread (fun _ => false) p es = es := by
  induction es generalizing p with
  | nil => rfl
  | cons e es ih => rw [spread, ih]; rfl

theorem eq_of_mem_places_false {p : Nat} {es : List Encoding} {a : Nat × Nat}
    (member : a ∈ places (fun _ => false) p p es) : a.2 = a.1 := by
  induction es generalizing p with
  | nil => exact absurd member List.not_mem_nil
  | cons e es ih =>
    rcases List.mem_cons.mp member with rfl | later
    · rfl
    · exact ih later

theorem foldl_insert_startsFrom (p : Nat) (es : List Encoding) (offsetMap : SortedMap Nat Nat)
    (before : ∀ a ∈ offsetMap.entries, a.1 < p) :
    ((startsFrom p es).foldl (fun map q => map.insert q q) offsetMap).entries =
      offsetMap.entries ++ places (fun _ => false) p p es := by
  induction es generalizing p offsetMap with
  | nil => simp [startsFrom, places]
  | cons e es ih =>
    have positive := e.two_le_size
    have inserted : (offsetMap.insert p p).entries = offsetMap.entries ++ [(p, p)] :=
      SortedMap.insertEntry_of_lt before p
    rw [startsFrom, List.foldl_cons, ih (p + e.size) _, inserted]
    · simp [places, length_injected]
    · rw [inserted]
      intro a member
      rcases List.mem_append.mp member with old | new
      · have := before a old
        omega
      · obtain rfl := List.mem_singleton.mp new
        simp only
        omega

theorem inserted_refl {map : Nat → Option Nat} {p : Nat} {es : List Encoding}
    (fixed : ∀ q ∈ startsFrom p es, map q = some q)
    (targets : ∀ q e t, (q, e) ∈ located p es → e.target q = some t →
      ∃ r : Nat, t = r ∧ map r = some r) : Inserted map p p es es := by
  induction es generalizing p with
  | nil => exact .nil
  | cons e es ih =>
    refine .instruction (fixed p List.mem_cons_self) ⟨rfl, rfl, fun _ => rfl, fun t jumps => ?_⟩
      (ih (fun q later => fixed q (List.mem_cons_of_mem _ later))
        (fun q e₀ t later => targets q e₀ t (List.mem_cons_of_mem _ later)))
    obtain ⟨r, same, kept⟩ := targets p e t List.mem_cons_self jumps
    exact ⟨r, r, same, kept, jumps.trans (congrArg some same)⟩

theorem map_fst_needsInject (es : List Encoding) (extraTargets : List Nat) :
    let inject := needsInject (assemble es).length (scanned (assemble es).length 0 es) extraTargets
    inject.entries.map (·.1) =
      (startsFrom 0 es).filter fun q => decide ((q, ()) ∈ inject.entries) := by
  intro inject
  refine List.Pairwise.eq_of_mem_iff (r := (· < ·)) (inject.sorted.map _ fun _ _ less => less)
    ((sorted_startsFrom 0 es).filter _) fun q => ?_
  rw [List.mem_filter, decide_eq_true_iff]
  constructor
  · intro member
    obtain ⟨⟨_, _⟩, pending, rfl⟩ := List.mem_map.mp member
    refine ⟨?_, pending⟩
    rw [← instStarts_scanned (assemble es).length]
    exact (mem_needsInject.mp pending).2.2
  · exact fun ⟨_, pending⟩ => List.mem_map_of_mem (f := (·.1)) pending

section

variable {es : List Encoding} {extraTargets : List Nat} {newCode : List Byte}
  {offsetMap : SortedMap Nat Nat}

theorem exists_spread (onBoundary : OnBoundary es)
    (ran : alignBranchTargets (assemble es) extraTargets = pure (newCode, offsetMap)) :
    ∃ inj es', newCode = assemble (spread inj 0 es') ∧ offsetMap.entries = places inj 0 0 es ∧
      Inserted offsetMap.lookup 0 0 es (spread inj 0 es') ∧ List.Forall₂ Kept es es' ∧
      ∀ q, (q, ()) ∈ (needsInject (assemble es).length (scanned (assemble es).length 0 es)
        extraTargets).entries → inj q := by
  simp only [alignBranchTargets, scanFrom_assemble, pure_bind, instStarts_scanned] at ran
  split at ran
  next none =>
    obtain ⟨rfl, rfl⟩ := Prod.mk.inj (Attempt.pure_inj.mp ran)
    have entries := foldl_insert_startsFrom 0 es SortedMap.empty
      fun a member => absurd member List.not_mem_nil
    have fixed : ∀ q ∈ startsFrom 0 es, ((startsFrom 0 es).foldl (fun map q => map.insert q q)
        SortedMap.empty).lookup q = some q := by
      intro q member
      obtain ⟨q', moved, placed⟩ := exists_place entries member
      exact moved.trans (congrArg some (eq_of_mem_places_false placed))
    refine ⟨fun _ => false, es, by rw [spread_false], entries, ?_, ?_, ?_⟩
    · rw [spread_false]
      refine inserted_refl fixed fun q e t member jumps => ?_
      obtain ⟨r, start, same⟩ := onBoundary (q, e) member t jumps
      exact ⟨r, same, fixed r start⟩
    · exact List.forall₂_same.mpr fun e _ => ⟨rfl, Encoding.isTerminator_of_terminates⟩
    · intro q pending
      exact absurd (none ▸ pending) List.not_mem_nil
  next some =>
    rw [map_fst_needsInject] at ran
    generalize marked : (fun q => decide ((q, ()) ∈ (needsInject (assemble es).length
      (scanned (assemble es).length 0 es) extraTargets).entries)) = inj at ran
    obtain ⟨code, entries⟩ := layout_assemble inj es [] [] SortedMap.empty
      fun a member => absurd member List.not_mem_nil
    simp only [List.nil_append, List.length_nil] at code entries
    obtain ⟨relocated, folded, ran⟩ := Attempt.bind_eq_pure.mp ran
    obtain ⟨rfl, rfl⟩ := Prod.mk.inj (Attempt.pure_inj.mp ran)
    rw [code] at folded
    obtain ⟨es', code', inserted, kept⟩ := foldlM_relocateAt []
      (fun a member => SortedMap.lookup_eq_some.mpr (entries ▸ member))
      (fun q q' e member at' => reach_places entries onBoundary member at') folded
    refine ⟨inj, es', code', entries, inserted, kept, fun q pending => ?_⟩
    rw [← marked]
    exact decide_eq_true pending

/-- The pass inserts only fallthroughs, moves every jump along with its target, and makes the
targets start gas blocks. -/
theorem alignBranchTargets_preserves {code : List Byte} (whole : Whole code)
    (onBoundary : OnBoundary (disassemble code))
    (ran : alignBranchTargets code extraTargets = pure (newCode, offsetMap)) :
    assemble (disassemble code) = code ∧
      Inserted offsetMap.lookup 0 0 (disassemble code) (disassemble newCode) ∧
      assemble (disassemble newCode) = newCode ∧
      offsetMap.entries.map (·.1) = startsFrom 0 (disassemble code) ∧
      offsetMap.entries.Pairwise (fun a b => a.1 < b.1 ∧ a.2 < b.2) ∧
      ∀ t, StaticTarget (disassemble code) t ∨
          t ∈ extraTargets ∧ t ∈ startsFrom 0 (disassemble code) →
        ∃ t', offsetMap.lookup t = some t' ∧ ∀ memCycles, StartsBlock newCode memCycles t' := by
  obtain ⟨es, rfl⟩ := exists_assemble whole
  rw [disassemble_assemble] at onBoundary ⊢
  obtain ⟨inj, es', rfl, entries, inserted, kept, marked⟩ := exists_spread onBoundary ran
  rw [disassemble_assemble]
  refine ⟨rfl, inserted, rfl, ?_, ?_, fun t target => ?_⟩
  · rw [entries, map_fst_places]
  · rw [entries]
    exact (pairwise_places inj 0 0 es).imp fun ordered => ⟨ordered.1, ordered.2.1⟩
  · have start : t ∈ startsFrom 0 es := by
      rcases target with ⟨p, e, member, jumps⟩ | ⟨-, start⟩
      · obtain ⟨q, start, same⟩ := onBoundary (p, e) member t jumps
        exact Int.ofNat.inj same ▸ start
      · exact start
    exact startsBlock_of_places entries kept start
      ((starts_of_target start (target.imp_right And.left)).imp_left (marked t))

end

/-- A loop that is entered from above: two instructions, a branch back over the second one, and a
compressed jump back to the start. -/
def loopCode : List Byte :=
  [0x13, 0x00, 0x00, 0x00, 0x93, 0x80, 0x10, 0x00, 0xe3, 0x9e, 0x20, 0xfe, 0xd5, 0xbf]

/-- The loop with a fallthrough before its head; the branch stays, and the jump is longer. -/
def alignedLoop : List Byte :=
  [0x13, 0x00, 0x00, 0x00, 0x0b, 0x40, 0x00, 0x00, 0x93, 0x80, 0x10, 0x00, 0xe3, 0x9e, 0x20, 0xfe,
    0xc5, 0xbf]

theorem alignBranchTargets_preserves_loop :
    Whole loopCode ∧ OnBoundary (disassemble loopCode) ∧
      alignBranchTargets loopCode [] = pure (alignedLoop, ⟨[(0, 0), (4, 8), (8, 12), (12, 16)],
        by decide⟩) ∧
      ∀ memCycles, StartsBlock alignedLoop memCycles 8 := by
  have whole : Whole loopCode := by decide +kernel
  have onBoundary : OnBoundary (disassemble loopCode) := by decide +kernel
  have ran : alignBranchTargets loopCode [] = pure (alignedLoop,
      ⟨[(0, 0), (4, 8), (8, 12), (12, 16)], by decide⟩) := by decide +kernel
  obtain ⟨-, -, -, -, -, starts⟩ := alignBranchTargets_preserves whole onBoundary ran
  obtain ⟨t', moved, started⟩ := starts 4 (.inl ⟨8, .word 0xfe209ee3 (by decide), by decide +kernel,
    by decide +kernel⟩)
  obtain rfl : 8 = t' := Option.some.inj moved
  exact ⟨whole, onBoundary, ran, started⟩

/-- An extra target within an instruction is dropped silently. -/
theorem extraTarget_within_instruction :
    let code := wordBytes 0x00000013
    ∃ offsetMap, Whole code ∧ OnBoundary (disassemble code) ∧
      alignBranchTargets code [2] = pure (code, offsetMap) ∧ offsetMap.lookup 2 = none ∧
      ∀ memCycles, ¬ StartsBlock code memCycles 2 := by
  refine ⟨⟨[(0, 0)], by decide⟩, by decide +kernel, by decide +kernel, by decide +kernel, rfl, ?_⟩
  have view : ∀ i ∈ markBlockStarts true (decodeAll 4 0 (wordBytes 0x00000013)), i.pc ≠ 2 := by
    decide +kernel
  exact fun memCycles ⟨i, member, at', _⟩ => view i member at'

end Jar.Linker
