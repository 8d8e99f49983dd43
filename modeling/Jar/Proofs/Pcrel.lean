import Jar.Exec.Interp
import Jar.Linker.Pcrel
import Jar.Proofs.Encoding
import Jar.Proofs.Halves

/-! The address pairs that the linker rewrites form the addresses they are rewritten for. -/

namespace Jar.Linker

/-! ## Immediates -/

theorem lowerBits_eq (eff : BitVec 32) : lowerBits eff = (eff.extractLsb' 0 12).signExtend 32 := by
  apply BitVec.eq_of_getLsbD_eq
  intro i below
  rw [lowerBits, BitVec.getLsbD_sshiftRight, BitVec.getLsbD_signExtend]
  simp only [BitVec.msb_eq_getLsbD_last]
  interval_cases i <;> simp

/-- The rounding of the upper bits makes up for the sign of the lower ones. -/
theorem upperBits_add_lowerBits (eff : BitVec 32) : upperBits eff + lowerBits eff = eff := by
  have shifted : upperBits eff = ((eff + 0x800) >>> 12) <<< 12 := by
    unfold upperBits
    generalize eff + 0x800 = v
    apply BitVec.eq_of_getLsbD_eq
    intro i below
    interval_cases i <;> simp
  rw [lowerBits_eq, shifted]
  apply BitVec.eq_of_toNat_eq
  rw [BitVec.toNat_add, BitVec.toNat_signExtend]
  simp only [BitVec.msb_eq_decide, BitVec.toNat_shiftLeft, BitVec.toNat_ushiftRight,
    BitVec.toNat_add, BitVec.toNat_setWidth, BitVec.extractLsb'_toNat]
  simp
  split <;> omega

theorem fields_patchUpper {opcode : BitVec 32} (w eff : BitVec 32)
    (upper : opcode = opAuipc ∨ opcode = opLui) :
    immU (patchUpper opcode w eff) = upperBits eff ∧
      rdField (patchUpper opcode w eff) = rdField w ∧
      (patchUpper opcode w eff).extractLsb' 0 7 = opcode.extractLsb' 0 7 := by
  unfold immU patchUpper upperBits rdField
  generalize eff + 0x800 = v
  refine ⟨?_, ?_, ?_⟩ <;>
    apply BitVec.eq_of_getLsbD_eq <;> intro i below <;> rcases upper with rfl | rfl <;>
    interval_cases i <;> simp [opAuipc, opLui]

theorem patchImmI_spec (w imm : BitVec 32) : patchImmI w imm &&& 0x000FFFFF = w &&& 0x000FFFFF ∧
    immI (patchImmI w imm) = (imm.extractLsb' 0 12).signExtend 32 := by
  refine ⟨?_, congrArg (BitVec.signExtend 32) ?_⟩ <;>
    apply BitVec.eq_of_getLsbD_eq <;> intro i below <;> interval_cases i <;> simp [patchImmI]

theorem patchImmS_spec (w imm : BitVec 32) : patchImmS w imm &&& 0x01FFF07F = w &&& 0x01FFF07F ∧
    immS (patchImmS w imm) = (imm.extractLsb' 0 12).signExtend 32 := by
  refine ⟨?_, congrArg (BitVec.signExtend 32) ?_⟩ <;>
    apply BitVec.eq_of_getLsbD_eq <;> intro i below
  · interval_cases i <;> simp [patchImmS]
  · simp only [BitVec.getLsbD_append]
    interval_cases i <;> simp [patchImmS]

theorem extractLsb'_lowerBits (eff : BitVec 32) :
    ((lowerBits eff).extractLsb' 0 12).signExtend 32 = lowerBits eff := by
  rw [lowerBits_eq]
  refine congrArg (BitVec.signExtend 32) ?_
  apply BitVec.eq_of_getLsbD_eq
  intro i below
  simp only [BitVec.getLsbD_extractLsb', BitVec.getLsbD_signExtend, Nat.zero_add]
  have : i < 32 := by omega
  simp [below, this]

/-! ## Bits that are kept -/

/-- The bits outside the immediate of an instruction that the linker rewrites. -/
def keptBits (w : BitVec 32) : BitVec 32 :=
  match w.extractLsb' 0 7 with
  | 0b0010111#7 => 0x00000FFF
  | 0b0000011#7 | 0b0010011#7 | 0b1100111#7 => 0x000FFFFF
  | 0b0100011#7 => 0x01FFF07F
  | _ => 0xFFFFFFFF

/-- The words agree outside the immediate of the first. -/
def KeepsBits (w w' : BitVec 32) : Prop := w' &&& keptBits w = w &&& keptBits w

theorem extractLsb'_of_and {w w' mask : BitVec 32} (same : w' &&& mask = w &&& mask) (start len : Nat)
    (covered : ∀ i < len, mask.getLsbD (start + i) = true) :
    w'.extractLsb' start len = w.extractLsb' start len := by
  apply BitVec.eq_of_getLsbD_eq
  intro i below
  have bit := congrArg (BitVec.getLsbD · (start + i)) same
  simpa [covered i below, below] using bit

theorem KeepsBits.opcode {w w' : BitVec 32} (keeps : KeepsBits w w') :
    w'.extractLsb' 0 7 = w.extractLsb' 0 7 := by
  refine extractLsb'_of_and keeps 0 7 fun i below => ?_
  unfold keptBits
  split <;> interval_cases i <;> rfl

theorem KeepsBits.mask {w w' : BitVec 32} (keeps : KeepsBits w w') : keptBits w' = keptBits w := by
  unfold keptBits
  rw [keeps.opcode]

theorem KeepsBits.trans {w w' w'' : BitVec 32} (first : KeepsBits w w') (second : KeepsBits w' w'') :
    KeepsBits w w'' := by
  have second : w'' &&& keptBits w' = w' &&& keptBits w' := second
  rw [first.mask] at second
  exact Eq.trans second first

/-! ## Words in code -/

def wordAt (code : List Byte) (p : Nat) : BitVec 32 :=
  code.getD (p + 3) 0 ++ code.getD (p + 2) 0 ++ code.getD (p + 1) 0 ++ code.getD p 0

theorem readWord_eq (code : List Byte) (p : Nat) : readWord code p =
    if p + 4 ≤ code.length then pure (wordAt code p) else Attempt.crash := by
  have ahead : ∀ j, code.getD (p + j) 0 = (code.drop p).getD j 0 := fun j => by
    simp [List.getD_eq_getElem?_getD]
  have len : (code.drop p).length = code.length - p := List.length_drop
  unfold readWord wordAt
  rw [ahead 3, ahead 2, ahead 1, ← Nat.add_zero p, ahead 0, Nat.add_zero]
  match code.drop p, len with
  | [], len | [_], len | [_, _], len | [_, _, _], len =>
    simp only [List.length_cons, List.length_nil] at len
    rw [if_neg (by omega)]
  | b0 :: b1 :: b2 :: b3 :: rest, len =>
    simp only [List.length_cons] at len
    rw [if_pos (by omega)]
    rfl

theorem length_splice {code bytes : List Byte} {p : Nat} (inside : p + bytes.length ≤ code.length) :
    (splice code p bytes).length = code.length := by
  simp only [splice, List.length_append, List.length_take, List.length_drop]
  omega

theorem getElem?_splice {code bytes : List Byte} {p : Nat} (inside : p + bytes.length ≤ code.length)
    (i : Nat) : (splice code p bytes)[i]? =
      if p ≤ i ∧ i < p + bytes.length then bytes[i - p]? else code[i]? := by
  have len : (code.take p).length = p := by
    rw [List.length_take]
    omega
  unfold splice
  by_cases before : i < p
  · rw [List.getElem?_append_left (by omega), List.getElem?_take_of_lt before, if_neg (by omega)]
  · rw [List.getElem?_append_right (by omega), len]
    by_cases within : i < p + bytes.length
    · rw [List.getElem?_append_left (by omega), if_pos (by omega)]
    · rw [List.getElem?_append_right (by omega), List.getElem?_drop, if_neg (by omega)]
      congr 1
      omega

theorem getD_splice_word {code : List Byte} {p : Nat} (inside : p + 4 ≤ code.length) (w : BitVec 32)
    (i : Nat) : (splice code p (wordBytes w)).getD i 0 =
      if p ≤ i ∧ i < p + 4 then (wordBytes w).getD (i - p) 0 else code.getD i 0 := by
  rw [List.getD_eq_getElem?_getD, @getElem?_splice code (wordBytes w) p inside]
  change (if p ≤ i ∧ i < p + 4 then _ else _ : Option Byte).getD 0 = _
  split <;> rw [List.getD_eq_getElem?_getD]

theorem wordAt_splice_self {code : List Byte} {p : Nat} (inside : p + 4 ≤ code.length)
    (w : BitVec 32) : wordAt (splice code p (wordBytes w)) p = w := by
  unfold wordAt
  simp only [getD_splice_word inside]
  rw [if_pos (by omega), if_pos (by omega), if_pos (by omega), if_pos (by omega),
    Nat.add_sub_cancel_left, Nat.add_sub_cancel_left, Nat.add_sub_cancel_left, Nat.sub_self]
  exact Encoding.append_wordBytes w

theorem wordAt_splice_apart {code : List Byte} {p q : Nat} (inside : p + 4 ≤ code.length)
    (w : BitVec 32) (apart : p + 4 ≤ q ∨ q + 4 ≤ p) :
    wordAt (splice code p (wordBytes w)) q = wordAt code q := by
  unfold wordAt
  simp only [getD_splice_word inside]
  rw [if_neg (by omega), if_neg (by omega), if_neg (by omega), if_neg (by omega)]

theorem lengthBits_wordAt (code : List Byte) (p : Nat) :
    lengthBits (wordAt code p) = (code.getD p 0).extractLsb' 0 2 :=
  Encoding.lengthBits_word _ _ _ _

/-! ## Patches -/

/-- A rewriting of the word at an offset. -/
structure Patch where
  site : Nat
  rewrite : BitVec 32 → BitVec 32

/-- Rewrite the word, if the code reaches that far. -/
def Patch.apply (code : List Byte) (p : Patch) : List Byte :=
  if p.site + 4 ≤ code.length then
    splice code p.site (wordBytes (p.rewrite (wordAt code p.site)))
  else code

/-- A patch changes only the immediates of 4-byte instructions. -/
structure Patch.Tame (p : Patch) : Prop where
  keeps : ∀ w, KeepsBits w (p.rewrite w)
  short : ∀ w, lengthBits w ≠ 0b11#2 → p.rewrite w = w

/-- No offset lies within the bytes of a 4-byte instruction at another. -/
def Clear (code : List Byte) (sites : List Nat) : Prop :=
  ∀ p ∈ sites, ∀ q ∈ sites, lengthBits (wordAt code p) = 0b11#2 → ¬ (p < q ∧ q < p + 4)

theorem splice_wordAt {code : List Byte} {p : Nat} (inside : p + 4 ≤ code.length) :
    splice code p (wordBytes (wordAt code p)) = code := by
  apply List.ext_getElem?
  intro i
  rw [@getElem?_splice code (wordBytes _) p inside, wordAt, Encoding.wordBytes_append]
  split
  · next within =>
    have byte : ∀ j < 4, code[p + j]? = some (code.getD (p + j) 0) := fun j below => by
      rw [List.getD_eq_getElem?_getD, List.getElem?_eq_getElem (by omega), Option.getD_some]
    obtain ⟨j, rfl⟩ := Nat.exists_eq_add_of_le within.1
    have below : j < 4 := by simpa using within.2
    rw [byte j below, Nat.add_sub_cancel_left]
    interval_cases j <;> rfl
  · rfl

theorem length_apply (code : List Byte) (p : Patch) : (p.apply code).length = code.length := by
  unfold Patch.apply
  split
  · next inside => exact @length_splice code (wordBytes _) p.site inside
  · rfl

theorem getElem?_apply {code : List Byte} {p : Patch} {i : Nat}
    (outside : ¬ (p.site ≤ i ∧ i < p.site + 4)) : (p.apply code)[i]? = code[i]? := by
  unfold Patch.apply
  split
  · next inside =>
    rw [@getElem?_splice code (wordBytes _) p.site inside]
    exact if_neg outside
  · rfl

/-- A patch on anything but a 4-byte instruction does nothing. -/
theorem apply_short {code : List Byte} {p : Patch} (tame : p.Tame)
    (short : lengthBits (wordAt code p.site) ≠ 0b11#2) : p.apply code = code := by
  unfold Patch.apply
  split
  · next inside => rw [tame.short _ short, splice_wordAt inside]
  · rfl

section

variable {code : List Byte} {sites : List Nat}

theorem lengthBits_apply (clear : Clear code sites) {p : Patch} (tame : p.Tame)
    (site : p.site ∈ sites) {q : Nat} (member : q ∈ sites) :
    lengthBits (wordAt (p.apply code) q) = lengthBits (wordAt code q) := by
  by_cases long : lengthBits (wordAt code p.site) = 0b11#2
  · by_cases same : p.site = q
    · subst same
      unfold Patch.apply
      split
      · next inside =>
        rw [wordAt_splice_self inside]
        have opcode := (tame.keeps (wordAt code p.site)).opcode
        rw [(fields_of_opcode opcode).1, (fields_of_opcode rfl).1]
      · rfl
    · have outside := clear _ site _ member long
      rw [lengthBits_wordAt, lengthBits_wordAt, List.getD_eq_getElem?_getD,
        List.getD_eq_getElem?_getD, getElem?_apply (by omega)]
  · rw [apply_short tame long]

theorem clear_apply (clear : Clear code sites) {p : Patch} (tame : p.Tame)
    (site : p.site ∈ sites) : Clear (p.apply code) sites := by
  intro q member r member' long
  rw [lengthBits_apply clear tame site member] at long
  exact clear q member r member' long

theorem wordAt_apply (clear : Clear code sites) {p : Patch} (tame : p.Tame)
    (site : p.site ∈ sites) {q : Nat} (member : q ∈ sites) (inside : q + 4 ≤ code.length)
    (long : lengthBits (wordAt code q) = 0b11#2) :
    wordAt (p.apply code) q = if p.site = q then p.rewrite (wordAt code q) else wordAt code q := by
  by_cases same : p.site = q
  · subst same
    rw [if_pos rfl, Patch.apply, if_pos inside, wordAt_splice_self inside]
  · rw [if_neg same]
    by_cases long' : lengthBits (wordAt code p.site) = 0b11#2
    · have after := clear _ site _ member long'
      have before := clear _ member _ site long
      unfold Patch.apply
      split
      · next inside' => exact wordAt_splice_apart inside' _ (by omega)
      · rfl
    · rw [apply_short tame long']

end

/-! ## Runs of patches -/

section

variable {sites : List Nat} {patches : List Patch}

theorem length_foldl_apply (patches : List Patch) (code : List Byte) :
    (patches.foldl Patch.apply code).length = code.length := by
  induction patches generalizing code with
  | nil => rfl
  | cons p rest ih => exact (ih (p.apply code)).trans (length_apply code p)

/-- A run of patches keeps the instructions clear of each other and the bits outside immediates; a
word that none of them changes stays, and so does a byte outside the words of four bytes. -/
theorem foldl_apply_spec {code : List Byte} (tame : ∀ p ∈ patches, p.Tame ∧ p.site ∈ sites)
    (clear : Clear code sites) : Clear (patches.foldl Patch.apply code) sites ∧
      (∀ q ∈ sites, q + 4 ≤ code.length → lengthBits (wordAt code q) = 0b11#2 →
        KeepsBits (wordAt code q) (wordAt (patches.foldl Patch.apply code) q) ∧
        ((∀ p ∈ patches, p.site = q → ∀ w, KeepsBits (wordAt code q) w → p.rewrite w = w) →
          wordAt (patches.foldl Patch.apply code) q = wordAt code q)) ∧
      ∀ i, (∀ q ∈ sites, q + 4 ≤ code.length → lengthBits (wordAt code q) = 0b11#2 →
        ¬ (q ≤ i ∧ i < q + 4)) → (patches.foldl Patch.apply code)[i]? = code[i]? := by
  induction patches generalizing code with
  | nil => exact ⟨clear, fun _ _ _ _ => ⟨rfl, fun _ => rfl⟩, fun _ _ => rfl⟩
  | cons p rest ih =>
    obtain ⟨tameP, site⟩ := tame p (.head _)
    obtain ⟨clear', words, bytes⟩ := ih (fun q member => tame q (.tail _ member))
      (clear_apply clear tameP site)
    refine ⟨clear', fun q member inside long => ?_, fun i outside => ?_⟩
    · obtain ⟨keeps, stays⟩ := words q member (by rwa [length_apply])
        (by rwa [lengthBits_apply clear tameP site member])
      rw [wordAt_apply clear tameP site member inside long] at keeps stays
      constructor
      · split at keeps
        · exact (tameP.keeps _).trans keeps
        · exact keeps
      · intro idle
        have first : (if p.site = q then p.rewrite (wordAt code q) else wordAt code q) =
            wordAt code q := by
          split
          · next same => exact idle p (.head _) same _ rfl
          · rfl
        rw [first] at stays
        exact stays fun r later => idle r (.tail _ later)
    · refine (bytes i fun q member inside long => ?_).trans ?_
      · rw [length_apply] at inside
        rw [lengthBits_apply clear tameP site member] at long
        exact outside q member inside long
      -- A patch past the end of the code or of a short word does nothing.
      · by_cases long : lengthBits (wordAt code p.site) = 0b11#2
        · by_cases inside : p.site + 4 ≤ code.length
          · exact getElem?_apply (outside _ site inside long)
          · rw [Patch.apply, if_neg inside]
        · rw [apply_short tameP long]

theorem wordAt_foldl_last {before after : List Patch} {p : Patch} {code : List Byte}
    (tame : ∀ q ∈ before ++ p :: after, q.Tame ∧ q.site ∈ sites) (clear : Clear code sites)
    (inside : p.site + 4 ≤ code.length) (long : lengthBits (wordAt code p.site) = 0b11#2)
    (idle : ∀ q ∈ after, q.site = p.site → ∀ w, KeepsBits (wordAt code p.site) w →
      q.rewrite w = w) :
    ∃ w, KeepsBits (wordAt code p.site) w ∧
      wordAt ((before ++ p :: after).foldl Patch.apply code) p.site = p.rewrite w := by
  obtain ⟨tameP, site⟩ := tame p (by simp)
  obtain ⟨clear₁, words₁, -⟩ := foldl_apply_spec
    (fun q member => tame q (List.mem_append_left _ member)) clear
  have len₁ := length_foldl_apply before code
  obtain ⟨keeps, -⟩ := words₁ _ site inside long
  have long₁ : lengthBits (wordAt (before.foldl Patch.apply code) p.site) = 0b11#2 := by
    rw [(fields_of_opcode keeps.opcode).1, ← (fields_of_opcode rfl).1, long]
  have word := wordAt_apply clear₁ tameP site site (by omega) long₁
  rw [if_pos rfl] at word
  obtain ⟨-, words₂, -⟩ := foldl_apply_spec
    (fun q member => tame q (List.mem_append_right _ (.tail _ member)))
    (clear_apply clear₁ tameP site)
  have long₂ := lengthBits_apply clear₁ tameP site site
  obtain ⟨-, stays⟩ := words₂ _ site (by rw [length_apply]; omega) (long₂.trans long₁)
  refine ⟨_, keeps, ?_⟩
  rw [List.foldl_append, List.foldl_cons, stays fun q later same w keeps' => ?_, word]
  refine idle q later same w (keeps.trans ?_)
  rw [word] at keeps'
  exact (tameP.keeps _).trans keeps'

end

/-! ## The linker's patches -/

/-- Rewrite an AUIPC for a distance; other words are left alone. -/
def setUpper (eff w : BitVec 32) : BitVec 32 :=
  if w &&& 0x7F = opAuipc then patchUpper opAuipc w eff else w

def setLower (eff w : BitVec 32) : BitVec 32 :=
  match w.extractLsb' 0 7 with
  | 0b0000011#7 | 0b0010011#7 | 0b1100111#7 => patchImmI w (lowerBits eff)
  | 0b0100011#7 => patchImmS w (lowerBits eff)
  | _ => w

theorem opcode_of_and {w : BitVec 32} (opcode : w &&& 0x7F = opAuipc) :
    w.extractLsb' 0 7 = 0b0010111#7 := by
  have low : w.extractLsb' 0 7 = (w &&& 0x7F).extractLsb' 0 7 := by
    apply BitVec.eq_of_getLsbD_eq
    intro i below
    interval_cases i <;> simp
  rw [low, opcode]
  rfl

theorem and_of_opcode {w : BitVec 32} (opcode : w.extractLsb' 0 7 = 0b0010111#7) :
    w &&& 0x7F = opAuipc := by
  have low : w &&& 0x7F = (w.extractLsb' 0 7).zeroExtend 32 := by
    apply BitVec.eq_of_getLsbD_eq
    intro i below
    interval_cases i <;> simp
  rw [low, opcode]
  rfl

theorem and_low12 (w : BitVec 32) : w &&& 0xFFF = (rdField w ++ w.extractLsb' 0 7).zeroExtend 32 := by
  apply BitVec.eq_of_getLsbD_eq
  intro i below
  unfold rdField
  simp only [BitVec.getLsbD_setWidth, BitVec.getLsbD_append]
  interval_cases i <;> simp

theorem tame_setUpper (site : Nat) (eff : BitVec 32) : (Patch.mk site (setUpper eff)).Tame := by
  constructor
  · intro w
    change KeepsBits w (setUpper eff w)
    unfold setUpper
    split
    · next isAuipc =>
      have opcode := opcode_of_and isAuipc
      obtain ⟨-, rd, opcode'⟩ := fields_patchUpper w eff (.inl rfl)
      have opcode' : (patchUpper opAuipc w eff).extractLsb' 0 7 = 0b0010111#7 := opcode'
      simp only [KeepsBits, keptBits, opcode]
      rw [and_low12, and_low12 w, rd, opcode', opcode]
    · rfl
  · intro w short
    refine if_neg fun isAuipc => short ?_
    rw [(fields_of_opcode (opcode_of_and isAuipc)).1]
    rfl

theorem tame_setLower (site : Nat) (eff : BitVec 32) : (Patch.mk site (setLower eff)).Tame := by
  constructor
  · intro w
    change KeepsBits w (setLower eff w)
    unfold KeepsBits keptBits setLower
    split <;> rename_i opcode <;> simp only [opcode]
    · exact (patchImmI_spec w _).1
    · exact (patchImmI_spec w _).1
    · exact (patchImmI_spec w _).1
    · exact (patchImmS_spec w _).1
  · intro w short
    change setLower eff w = w
    unfold setLower
    split
    case h_5 => rfl
    all_goals
      rename_i opcode
      exact absurd (fields_of_opcode opcode).1 short

theorem patchLo12_eq {code : List Byte} {off : Nat} (inside : off + 4 ≤ code.length)
    (eff : BitVec 32) : patchLo12 code off eff = pure ((Patch.mk off (setLower eff)).apply code) := by
  have byte : code[off]? = some (code.getD off 0) := by
    rw [List.getD_eq_getElem?_getD, List.getElem?_eq_getElem (by omega), Option.getD_some]
  have opcode : (code.getD off 0).extractLsb' 0 7 = (wordAt code off).extractLsb' 0 7 := by
    unfold wordAt
    ext i
    grind
  have slot : ∀ patch, patchSlot patch code off =
      pure (splice code off (wordBytes (patch (wordAt code off)))) := fun patch => by
    rw [patchSlot, readWord_eq, if_pos inside]
    rfl
  have patched : (Patch.mk off (setLower eff)).apply code =
      splice code off (wordBytes (setLower eff (wordAt code off))) := if_pos inside
  unfold patchLo12
  simp only [byte, opcode, slot]
  split
  case h_5 load imm jalr store =>
    have other : setLower eff (wordAt code off) = wordAt code off := by
      unfold setLower
      split <;> first | contradiction | rfl
    rw [patched, other, splice_wordAt inside]
  all_goals
    rename_i opcode
    simp only [patched, setLower, opcode]

/-! ## Instructions -/

/-- The instruction that the executor sees in a word. -/
def instOf (w : BitVec 32) : Inst := reserveIfReservedReg (decode32 w)

/-- The register from which an instruction forms an address, and what it adds. -/
def addressBase : Inst → Option (RegIdx × BitVec 32)
  | .load _ _ rs1 imm | .store _ rs1 _ imm | .jalr _ rs1 imm => some (rs1, imm)
  | .opImm .addi _ rs1 imm => some (rs1, imm)
  | _ => none

/-- The address that an instruction forms: it loads from it, stores to it, jumps to it or writes
it to a register. -/
def formedAddress (regs : Regs) : Inst → Option (BitVec 32)
  | .load _ _ rs1 imm | .store _ rs1 _ imm => some (computeAddr regs rs1 imm)
  | .jalr _ rs1 imm => some (low32 (regRead regs rs1) + imm)
  | .opImm .addi _ rs1 imm => some (low32 (ImmOp.addi.eval (regRead regs rs1) imm))
  | _ => none

theorem formedAddress_eq {inst : Inst} {rs1 : RegIdx} {imm : BitVec 32}
    (base : addressBase inst = some (rs1, imm)) (regs : Regs) :
    formedAddress regs inst = some (low32 (regRead regs rs1) + imm) := by
  unfold addressBase at base
  split at base
  case h_5 => cases base
  all_goals cases base
  · rfl
  · rfl
  · rfl
  · have low : low32 (regRead regs rs1 + sext32 imm) = low32 (regRead regs rs1) + imm := by
      rw [low32_add, low32_sext32]
    exact congrArg some low

theorem opcode_eq (w : BitVec 32) : w.extractLsb' 0 7 = major w ++ lengthBits w := by
  unfold major lengthBits
  ext i
  grind

theorem instOf_upper {w : BitVec 32} (exists' : (regSlotOrFf (rdField w)).isSome) :
    (w.extractLsb' 0 7 = 0b0010111#7 → instOf w = .auipc (rdField w) (immU w)) ∧
      (w.extractLsb' 0 7 = 0b0110111#7 → instOf w = .lui (rdField w) (immU w)) := by
  have plain : regIsReserved (rdField w) = false := by
    generalize rdField w = rd at exists'
    revert rd
    decide
  constructor
  all_goals
    intro opcode
    obtain ⟨length, op⟩ := fields_of_opcode opcode
    simp only [BitVec.reduceExtractLsb'] at length op
    simp [instOf, decode32, length, op, reserveIfReservedReg, Inst.usesReservedReg, plain]

theorem opcode_of_addressBase {w : BitVec 32} {base : RegIdx × BitVec 32}
    (forms : addressBase (instOf w) = some base) :
    w.extractLsb' 0 7 = 0b0000011#7 ∨ w.extractLsb' 0 7 = 0b0010011#7 ∨
      w.extractLsb' 0 7 = 0b1100111#7 ∨ w.extractLsb' 0 7 = 0b0100011#7 := by
  have plain : addressBase (decode32 w) = some base := by
    unfold instOf reserveIfReservedReg at forms
    split at forms
    · cases forms
    · exact forms
  rw [opcode_eq]
  unfold decode32 at plain
  split at plain
  · cases plain
  · next length =>
    rw [Decidable.not_not.mp length]
    dsimp only at plain
    split at plain
    case h_1 op => exact .inl (by rw [op]; rfl)
    case h_2 op => exact .inr (.inr (.inr (by rw [op]; rfl)))
    case h_3 op => exact .inr (.inl (by rw [op]; rfl))
    case h_10 op => exact .inr (.inr (.inl (by rw [op]; rfl)))
    all_goals exfalso
    case h_4 =>
      unfold decodeOpImm32 at plain
      repeat' split at plain
      all_goals cases plain
    case h_5 =>
      split at plain
      · cases plain
      · split at plain <;> cases plain
    case h_6 => cases decoded : decodeOp32 (funct7 w) (funct3 w) <;> rw [decoded] at plain <;> cases plain
    case h_11 => cases decoded : decodeBranch (funct3 w) <;> rw [decoded] at plain <;> cases plain
    case h_12 =>
      unfold decodeMiscMem at plain
      split at plain <;> cases plain
    case h_13 =>
      unfold decodeCustom0 at plain
      split at plain <;> cases plain
    all_goals cases plain

theorem addressBase_reserve (inst : Inst) : addressBase (reserveIfReservedReg inst) =
    if inst.usesReservedReg then none else addressBase inst := by
  unfold reserveIfReservedReg
  split <;> rfl

theorem addressBase_decodeOpImm {w : BitVec 32} (other : funct3 w ≠ 0b000#3) :
    addressBase (decodeOpImm w) = none := by
  unfold decodeOpImm
  dsimp only
  repeat' split
  all_goals first | rfl | contradiction

/-- Instructions with the same registers that differ in what they add. -/
theorem addressBase_replace {inst inst' : Inst} {imm : BitVec 32}
    (uses : inst'.usesReservedReg = inst.usesReservedReg)
    (base : addressBase inst' = (addressBase inst).map fun base => (base.1, imm)) :
    addressBase (reserveIfReservedReg inst') =
      (addressBase (reserveIfReservedReg inst)).map fun base => (base.1, imm) := by
  rw [addressBase_reserve, addressBase_reserve, uses, base]
  split <;> rfl

/-- Words that agree below the immediate form addresses from the same register. -/
theorem addressBase_of_I {w w' : BitVec 32} (same : w' &&& 0x000FFFFF = w &&& 0x000FFFFF)
    (opcode : w.extractLsb' 0 7 = 0b0000011#7 ∨ w.extractLsb' 0 7 = 0b0010011#7 ∨
      w.extractLsb' 0 7 = 0b1100111#7) :
    addressBase (instOf w') = (addressBase (instOf w)).map fun base => (base.1, immI w') := by
  have field := extractLsb'_of_and same
  have opcode' : w'.extractLsb' 0 7 = w.extractLsb' 0 7 := field 0 7 (by decide)
  have f3 : funct3 w' = funct3 w := field 12 3 (by decide)
  have rd : rdField w' = rdField w := field 7 5 (by decide)
  have rs1 : rs1Field w' = rs1Field w := field 15 5 (by decide)
  rcases opcode with opcode | opcode | opcode
  all_goals
    obtain ⟨length, op⟩ := fields_of_opcode opcode
    obtain ⟨length', op'⟩ := fields_of_opcode (opcode'.trans opcode)
    simp only [BitVec.reduceExtractLsb'] at length op length' op'
    simp only [instOf, decode32, length, op, length', op', f3, rd, rs1, ne_eq, not_true_eq_false,
      if_false]
  · cases decodeLoad (funct3 w) with
    | none => rfl
    | some load =>
      simp only [Option.map_some, Option.getD_some]
      exact addressBase_replace (by simp only [Inst.usesReservedReg]) rfl
  · by_cases isAdd : funct3 w = 0b000#3
    · simp only [decodeOpImm, isAdd, f3, rd, rs1]
      exact addressBase_replace (by simp only [Inst.usesReservedReg]) rfl
    · have isAdd' : funct3 w' ≠ 0b000#3 := by rwa [f3]
      rw [addressBase_reserve, addressBase_reserve, addressBase_decodeOpImm isAdd,
        addressBase_decodeOpImm isAdd', ite_self, ite_self]
      rfl
  · by_cases isJalr : funct3 w = 0b000#3
    · simp only [isJalr, if_true]
      exact addressBase_replace (by simp only [Inst.usesReservedReg]) rfl
    · simp only [isJalr, if_false]
      rfl

theorem addressBase_of_S {w w' : BitVec 32} (same : w' &&& 0x01FFF07F = w &&& 0x01FFF07F)
    (opcode : w.extractLsb' 0 7 = 0b0100011#7) :
    addressBase (instOf w') = (addressBase (instOf w)).map fun base => (base.1, immS w') := by
  have field := extractLsb'_of_and same
  have opcode' : w'.extractLsb' 0 7 = w.extractLsb' 0 7 := field 0 7 (by decide)
  have f3 : funct3 w' = funct3 w := field 12 3 (by decide)
  have rs1 : rs1Field w' = rs1Field w := field 15 5 (by decide)
  have rs2 : rs2Field w' = rs2Field w := field 20 5 (by decide)
  obtain ⟨length, op⟩ := fields_of_opcode opcode
  obtain ⟨length', op'⟩ := fields_of_opcode (opcode'.trans opcode)
  simp only [BitVec.reduceExtractLsb'] at length op length' op'
  simp only [instOf, decode32, length, op, length', op', f3, rs1, rs2, ne_eq, not_true_eq_false,
    if_false]
  cases decodeStore (funct3 w) with
  | none => rfl
  | some store =>
    simp only [Option.map_some, Option.getD_some]
    exact addressBase_replace (by simp only [Inst.usesReservedReg]) rfl

/-- Rewriting the lower bits keeps the register and sets what is added to it. -/
theorem addressBase_setLower {w w' : BitVec 32} {rs1 : RegIdx} {imm : BitVec 32}
    (base : addressBase (instOf w) = some (rs1, imm)) (keeps : KeepsBits w w') (eff : BitVec 32) :
    addressBase (instOf (setLower eff w')) = some (rs1, lowerBits eff) := by
  have opcode' := keeps.opcode
  have isI : (w.extractLsb' 0 7 = 0b0000011#7 ∨ w.extractLsb' 0 7 = 0b0010011#7 ∨
      w.extractLsb' 0 7 = 0b1100111#7) →
      addressBase (instOf (setLower eff w')) = some (rs1, lowerBits eff) := by
    intro opcode
    have set : setLower eff w' = patchImmI w' (lowerBits eff) ∧ keptBits w = 0x000FFFFF := by
      unfold setLower keptBits
      rw [opcode']
      rcases opcode with opcode | opcode | opcode <;> rw [opcode] <;> exact ⟨rfl, rfl⟩
    obtain ⟨mask, patched⟩ := patchImmI_spec w' (lowerBits eff)
    unfold KeepsBits at keeps
    rw [set.2] at keeps
    rw [set.1, addressBase_of_I (mask.trans keeps) opcode, base, Option.map_some, patched,
      extractLsb'_lowerBits]
  rcases opcode_of_addressBase base with load | add | jalr | store
  · exact isI (.inl load)
  · exact isI (.inr (.inl add))
  · exact isI (.inr (.inr jalr))
  · have set : setLower eff w' = patchImmS w' (lowerBits eff) ∧ keptBits w = 0x01FFF07F := by
      unfold setLower keptBits
      rw [opcode', store]
      exact ⟨rfl, rfl⟩
    obtain ⟨mask, patched⟩ := patchImmS_spec w' (lowerBits eff)
    unfold KeepsBits at keeps
    rw [set.2] at keeps
    rw [set.1, addressBase_of_S (mask.trans keeps) store, base, Option.map_some, patched,
      extractLsb'_lowerBits]

/-! ## Pairs -/

/-- An AUIPC of a guest register, and an instruction that forms an address from that register. -/
structure AddressPair (code : List Byte) (a l : Nat) : Prop where
  insideUpper : a + 4 ≤ code.length
  insideLower : l + 4 ≤ code.length
  upper : (wordAt code a).extractLsb' 0 7 = 0b0010111#7
  register : (regSlotOrFf (rdField (wordAt code a))).isSome
  lower : ∃ imm, addressBase (instOf (wordAt code l)) = some (rdField (wordAt code a), imm)

/-- After the first word has been executed at an offset, the second one forms the address. -/
def Forms (codeBase : BitVec 32) (pc : Nat) (first second target : BitVec 32) : Prop :=
  ∀ (Host : Type) (prog : Program) (handler : EcallHandler Host) (idx : prog.Idx)
    (s : ExecState Host), prog.codeBase = codeBase → (prog.fetch idx).pc = pc →
    (prog.fetch idx).inst = instOf first →
    ∃ s', execInst prog handler idx s = advance prog idx s' ∧
      formedAddress s'.gpr (instOf second) = some target

theorem forms_of_upper {codeBase hi lo target : BitVec 32} {pc : Nat} {first second : BitVec 32}
    {rd : RegIdx} (register : (regSlotOrFf rd).isSome)
    (lower : addressBase (instOf second) = some (rd, lo))
    (upper : instOf first = .lui rd hi ∧ hi + lo = target ∨
      instOf first = .auipc rd hi ∧ codeBase + BitVec.ofNat 32 pc + hi + lo = target) :
    Forms codeBase pc first second target := by
  rintro Host prog handler idx s rfl rfl fetched
  have written : ∀ value, formedAddress (regWrite s.gpr rd (sext32 value)) (instOf second) =
      some (value + lo) := fun value => by
    rw [formedAddress_eq lower, regRead_regWrite, if_pos ⟨rfl, register⟩, low32_sext32]
  rcases upper with ⟨isLui, rfl⟩ | ⟨isAuipc, rfl⟩
  · refine ⟨{ s with gpr := regWrite s.gpr rd (sext32 hi) }, ?_, written hi⟩
    simp only [execInst, fetched, isLui]
  · let va := prog.codeBase + BitVec.ofNat 32 (prog.fetch idx).pc + hi
    refine ⟨{ s with gpr := regWrite s.gpr rd (sext32 va) }, ?_, written va⟩
    simp only [execInst, fetched, isAuipc, va]

/-! ## The recorded pairs -/

def upperPatch (offsetMap : SortedMap Nat Nat) (entry : Nat × Nat) : Patch :=
  let na := (offsetMap.lookup entry.1).getD 0
  let nt := (offsetMap.lookup entry.2).getD 0
  ⟨na, setUpper (displacement na nt)⟩

/-- The patch for a recorded instruction with lower bits. -/
def lowerPatch (offsetMap : SortedMap Nat Nat) (entry : Nat × Nat × Nat) : Patch :=
  let nl := (offsetMap.lookup entry.1).getD 0
  let na := (offsetMap.lookup entry.2.1).getD 0
  let nt := (offsetMap.lookup entry.2.2).getD 0
  ⟨nl, setLower (displacement na nt)⟩

section

variable {offsetMap : SortedMap Nat Nat}

theorem remap_eq_pure {o n : Nat} :
    remap offsetMap o = pure n ↔ offsetMap.lookup o = some n := by
  unfold remap
  cases offsetMap.lookup o with
  | none => exact ⟨fun ran => absurd ran Attempt.throw_ne_pure, nofun⟩
  | some n' => exact Attempt.pure_inj.trans (Option.some_inj).symm

theorem fixupAuipc_eq_pure {code code' : List Byte} {entry : Nat × Nat}
    (ran : fixupAuipc offsetMap code entry = pure code') :
    (offsetMap.lookup entry.1).isSome ∧ code' = (upperPatch offsetMap entry).apply code := by
  obtain ⟨na, atA, ran⟩ := Attempt.bind_eq_pure.mp ran
  obtain ⟨nt, atT, ran⟩ := Attempt.bind_eq_pure.mp ran
  rw [remap_eq_pure] at atA atT
  refine ⟨by rw [atA]; rfl, ?_⟩
  simp only [upperPatch, atA, atT, Option.getD_some, Patch.apply]
  split at ran
  · next short => rw [if_neg (by omega), Attempt.pure_inj.mp ran]
  · next enough =>
    have inside : na + 4 ≤ code.length := by omega
    rw [readWord_eq, if_pos inside, pure_bind] at ran
    obtain ⟨isAuipc, ran⟩ := Attempt.ite_throw_eq_pure.mp ran
    rw [if_pos inside, ← Attempt.pure_inj.mp ran, setUpper, if_pos (Decidable.not_not.mp isAuipc)]

theorem fixupLo12_eq_pure {code code' : List Byte} {entry : Nat × Nat × Nat}
    (ran : fixupLo12 offsetMap code entry = pure code') :
    (offsetMap.lookup entry.1).isSome ∧ code' = (lowerPatch offsetMap entry).apply code := by
  obtain ⟨nl, atL, ran⟩ := Attempt.bind_eq_pure.mp ran
  obtain ⟨na, atA, ran⟩ := Attempt.bind_eq_pure.mp ran
  obtain ⟨nt, atT, ran⟩ := Attempt.bind_eq_pure.mp ran
  rw [remap_eq_pure] at atL atA atT
  refine ⟨by rw [atL]; rfl, ?_⟩
  simp only [lowerPatch, atL, atA, atT, Option.getD_some]
  split at ran
  · next short => rw [Patch.apply, if_neg (by simp only; omega), Attempt.pure_inj.mp ran]
  · next enough =>
    rw [patchLo12_eq (by omega)] at ran
    exact (Attempt.pure_inj.mp ran).symm

theorem foldlM_patches {E : Type} {step : List Byte → E → Pass (List Byte)} {key : E → Nat}
    {patch : E → Patch} (each : ∀ code e code', step code e = pure code' →
      (offsetMap.lookup (key e)).isSome ∧ code' = (patch e).apply code)
    {entries : List E} {code code' : List Byte} (ran : entries.foldlM step code = pure code') :
    (∀ e ∈ entries, (offsetMap.lookup (key e)).isSome) ∧
      code' = (entries.map patch).foldl Patch.apply code := by
  induction entries generalizing code with
  | nil => exact ⟨nofun, (Attempt.pure_inj.mp ran).symm⟩
  | cons e rest ih =>
    obtain ⟨next, first, ran⟩ := Attempt.bind_eq_pure.mp ran
    obtain ⟨found, rfl⟩ := each _ _ _ first
    obtain ⟨others, rfl⟩ := ih ran
    refine ⟨fun e' member => ?_, rfl⟩
    rcases List.mem_cons.mp member with rfl | later
    · exact found
    · exact others e' later

end

/-- No recorded instruction lies within the bytes of another one of four bytes. -/
def RecordedApart (offsetMap : SortedMap Nat Nat) (recorded : List Nat) (code : List Byte) : Prop :=
  ∀ p ∈ recorded, ∀ q ∈ recorded, p ≠ q → ∀ p' q', offsetMap.lookup p = some p' →
    offsetMap.lookup q = some q' → lengthBits (wordAt code p') = 0b11#2 →
      ¬ (p' ≤ q' ∧ q' < p' + 4)

def recordedOffsets (codeAuipc : SortedMap Nat Nat) (codeLo12 : List (Nat × Nat × Nat)) : List Nat :=
  codeAuipc.entries.map (·.1) ++ codeLo12.map (·.1)

/-- Bytes outside the instructions of four bytes at some offsets of the code stay, and so do the
bits outside immediates within. -/
structure OnlyImmediates (code code' : List Byte) (sites : List Nat) : Prop where
  length : code'.length = code.length
  outside : ∀ i, (∀ p ∈ sites, p + 4 ≤ code.length → lengthBits (wordAt code p) = 0b11#2 →
    ¬ (p ≤ i ∧ i < p + 4)) → code'[i]? = code[i]?
  within : ∀ p ∈ sites, p + 4 ≤ code.length → lengthBits (wordAt code p) = 0b11#2 →
    KeepsBits (wordAt code p) (wordAt code' p)

section

variable {offsetMap codeAuipc : SortedMap Nat Nat} {codeLo12 : List (Nat × Nat × Nat)}
  {code code' : List Byte}

theorem fixupCodePcrel_patches (ran : fixupCodePcrel offsetMap codeAuipc codeLo12 code = pure code') :
    (∀ p ∈ recordedOffsets codeAuipc codeLo12, (offsetMap.lookup p).isSome) ∧
      code' = (codeAuipc.entries.map (upperPatch offsetMap) ++
        codeLo12.map (lowerPatch offsetMap)).foldl Patch.apply code := by
  obtain ⟨mid, uppers, lowers⟩ := Attempt.bind_eq_pure.mp ran
  obtain ⟨foundUpper, rfl⟩ := @foldlM_patches _ _ _ (·.1) (upperPatch offsetMap)
    (fun _ _ _ => fixupAuipc_eq_pure) _ _ _ uppers
  obtain ⟨foundLower, rfl⟩ := @foldlM_patches _ _ _ (·.1) (lowerPatch offsetMap)
    (fun _ _ _ => fixupLo12_eq_pure) _ _ _ lowers
  refine ⟨fun p member => ?_, by rw [List.foldl_append]⟩
  rcases List.mem_append.mp member with upper | lower
  · obtain ⟨e, recorded, rfl⟩ := List.mem_map.mp upper
    exact foundUpper e recorded
  · obtain ⟨e, recorded, rfl⟩ := List.mem_map.mp lower
    exact foundLower e recorded

def recordedSites (offsetMap codeAuipc : SortedMap Nat Nat) (codeLo12 : List (Nat × Nat × Nat)) :
    List Nat :=
  (recordedOffsets codeAuipc codeLo12).map fun p => (offsetMap.lookup p).getD 0

theorem clear_of_recorded
    (found : ∀ p ∈ recordedOffsets codeAuipc codeLo12, (offsetMap.lookup p).isSome)
    (apart : RecordedApart offsetMap (recordedOffsets codeAuipc codeLo12) code) :
    Clear code (recordedSites offsetMap codeAuipc codeLo12) := by
  rintro p' member q' member' long
  obtain ⟨p, recorded, rfl⟩ := List.mem_map.mp member
  obtain ⟨q, recorded', rfl⟩ := List.mem_map.mp member'
  obtain ⟨p', at'⟩ := Option.isSome_iff_exists.mp (found p recorded)
  obtain ⟨q', at''⟩ := Option.isSome_iff_exists.mp (found q recorded')
  simp only [at', at'', Option.getD_some] at long ⊢
  rintro ⟨less, below⟩
  have distinct : p ≠ q := by
    rintro rfl
    have same : p' = q' := Option.some.inj (at'.symm.trans at'')
    omega
  exact apart p recorded q recorded' distinct p' q' at' at'' long ⟨less.le, below⟩

theorem tame_patches :
    ∀ p ∈ codeAuipc.entries.map (upperPatch offsetMap) ++ codeLo12.map (lowerPatch offsetMap),
      p.Tame ∧ p.site ∈ recordedSites offsetMap codeAuipc codeLo12 := by
  intro p member
  rcases List.mem_append.mp member with upper | lower
  · obtain ⟨e, recorded, rfl⟩ := List.mem_map.mp upper
    exact ⟨tame_setUpper _ _, List.mem_map.mpr
      ⟨e.1, List.mem_append_left _ (List.mem_map_of_mem recorded), rfl⟩⟩
  · obtain ⟨e, recorded, rfl⟩ := List.mem_map.mp lower
    exact ⟨tame_setLower _ _, List.mem_map.mpr
      ⟨e.1, List.mem_append_right _ (List.mem_map_of_mem recorded), rfl⟩⟩

theorem eq_of_site (apart : RecordedApart offsetMap (recordedOffsets codeAuipc codeLo12) code)
    (found : ∀ p ∈ recordedOffsets codeAuipc codeLo12, (offsetMap.lookup p).isSome)
    {p q p' : Nat} (recorded : p ∈ recordedOffsets codeAuipc codeLo12)
    (recorded' : q ∈ recordedOffsets codeAuipc codeLo12) (at' : offsetMap.lookup p = some p')
    (long : lengthBits (wordAt code p') = 0b11#2) (same : (offsetMap.lookup q).getD 0 = p') :
    q = p := by
  by_contra distinct
  obtain ⟨q', at''⟩ := Option.isSome_iff_exists.mp (found q recorded')
  rw [at'', Option.getD_some] at same
  subst same
  exact apart p recorded q recorded' (Ne.symm distinct) _ _ at' at'' long ⟨le_rfl, by omega⟩

theorem setUpper_forms {w w' eff : BitVec 32} (opcode : w.extractLsb' 0 7 = 0b0010111#7)
    (register : (regSlotOrFf (rdField w)).isSome) (keeps : KeepsBits w w') :
    instOf (setUpper eff w') = .auipc (rdField w) (upperBits eff) := by
  have opcode' := keeps.opcode.trans opcode
  have rd : rdField w' = rdField w := by
    unfold KeepsBits keptBits at keeps
    rw [opcode] at keeps
    exact extractLsb'_of_and keeps 7 5 (by decide)
  obtain ⟨imm, same, isAuipc⟩ := fields_patchUpper w' eff (.inl rfl)
  rw [setUpper, if_pos (and_of_opcode opcode'),
    (instOf_upper (by rwa [same, rd])).1 isAuipc, same, rd, imm]

theorem setLower_idle {w w' : BitVec 32} (opcode : w.extractLsb' 0 7 = 0b0010111#7)
    (keeps : KeepsBits w w') (eff : BitVec 32) : setLower eff w' = w' := by
  have opcode' := keeps.opcode.trans opcode
  unfold setLower
  split
  case h_5 => rfl
  all_goals
    rename_i other
    exact absurd (other.symm.trans opcode') (by decide)

/-- A recorded pair is rewritten for the new distance of its target. -/
theorem fixupCodePcrel_forms (ran : fixupCodePcrel offsetMap codeAuipc codeLo12 code = pure code')
    (apart : RecordedApart offsetMap (recordedOffsets codeAuipc codeLo12) code)
    {a t l na nt nl : Nat} (atA : offsetMap.lookup a = some na) (atT : offsetMap.lookup t = some nt)
    (atL : offsetMap.lookup l = some nl) (recordedA : (a, t) ∈ codeAuipc.entries)
    {before after : List (Nat × Nat × Nat)} (recordedL : codeLo12 = before ++ (l, a, t) :: after)
    (last : ∀ e ∈ after, e.1 ≠ l) (pair : AddressPair code na nl) (codeBase : BitVec 32) :
    Forms codeBase na (wordAt code' na) (wordAt code' nl) (codeBase + BitVec.ofNat 32 nt) := by
  obtain ⟨found, rfl⟩ := fixupCodePcrel_patches ran
  have clear := clear_of_recorded found apart
  have tame := @tame_patches offsetMap codeAuipc codeLo12
  obtain ⟨imm, lower⟩ := pair.lower
  have memberA : a ∈ recordedOffsets codeAuipc codeLo12 :=
    List.mem_append_left _ (List.mem_map.mpr ⟨_, recordedA, rfl⟩)
  have memberL : l ∈ recordedOffsets codeAuipc codeLo12 :=
    List.mem_append_right _ (List.mem_map.mpr ⟨(l, a, t), by rw [recordedL]; simp, rfl⟩)
  have longA : lengthBits (wordAt code na) = 0b11#2 := (fields_of_opcode pair.upper).1
  have longL : lengthBits (wordAt code nl) = 0b11#2 := by
    rcases opcode_of_addressBase lower with opcode | opcode | opcode | opcode <;>
      exact (fields_of_opcode opcode).1
  -- The last patch of the AUIPC is the one for its entry; those of lower bits leave it alone.
  have upper : ∃ w, KeepsBits (wordAt code na) w ∧
      wordAt ((codeAuipc.entries.map (upperPatch offsetMap) ++
        codeLo12.map (lowerPatch offsetMap)).foldl Patch.apply code) na =
        setUpper (displacement na nt) w := by
    obtain ⟨front, back, split⟩ := List.append_of_mem recordedA
    have patch : upperPatch offsetMap (a, t) = ⟨na, setUpper (displacement na nt)⟩ := by
      simp only [upperPatch, atA, atT, Option.getD_some]
    have sorted := codeAuipc.sorted
    rw [split, List.map_append, List.map_cons, patch, List.append_assoc, List.cons_append] at tame ⊢
    refine @wordAt_foldl_last _ _ _ ⟨na, _⟩ code tame clear pair.insideUpper longA
      fun q member same w keeps => ?_
    rcases List.mem_append.mp member with later | lower
    · obtain ⟨e, recorded, rfl⟩ := List.mem_map.mp later
      rw [split] at sorted
      have order : a < e.1 := (List.pairwise_cons.mp (List.pairwise_append.mp sorted).2.1).1 e recorded
      have memberE : e.1 ∈ recordedOffsets codeAuipc codeLo12 := List.mem_append_left _
        (List.mem_map.mpr ⟨e, by rw [split]; simp [recorded], rfl⟩)
      exact absurd (eq_of_site apart found memberA memberE atA longA same) (by omega)
    · obtain ⟨e, -, rfl⟩ := List.mem_map.mp lower
      exact setLower_idle pair.upper keeps _
  have lower' : ∃ w, KeepsBits (wordAt code nl) w ∧
      wordAt ((codeAuipc.entries.map (upperPatch offsetMap) ++
        codeLo12.map (lowerPatch offsetMap)).foldl Patch.apply code) nl =
        setLower (displacement na nt) w := by
    have patch : lowerPatch offsetMap (l, a, t) = ⟨nl, setLower (displacement na nt)⟩ := by
      simp only [lowerPatch, atL, atA, atT, Option.getD_some]
    have lowers : codeLo12.map (lowerPatch offsetMap) = before.map (lowerPatch offsetMap) ++
        ⟨nl, setLower (displacement na nt)⟩ :: after.map (lowerPatch offsetMap) := by
      rw [recordedL, List.map_append, List.map_cons, patch]
    rw [lowers, ← List.append_assoc] at tame ⊢
    refine @wordAt_foldl_last _ _ _ ⟨nl, _⟩ code tame clear pair.insideLower longL
      fun q member same w keeps => ?_
    obtain ⟨e, recorded, rfl⟩ := List.mem_map.mp member
    have memberE : e.1 ∈ recordedOffsets codeAuipc codeLo12 := List.mem_append_right _
      (List.mem_map.mpr ⟨e, by rw [recordedL]; simp [recorded], rfl⟩)
    exact absurd (eq_of_site apart found memberL memberE atL longL same) (last e recorded)
  obtain ⟨w, keeps, upper⟩ := upper
  obtain ⟨w', keeps', lower'⟩ := lower'
  rw [upper, lower']
  refine forms_of_upper pair.register (addressBase_setLower lower keeps' _)
    (.inr ⟨setUpper_forms pair.upper pair.register keeps, ?_⟩)
  rw [BitVec.add_assoc, upperBits_add_lowerBits, BitVec.add_assoc, displacement,
    ← BitVec.ofInt_natCast, ← BitVec.ofInt_add, add_sub_cancel, BitVec.ofInt_natCast]

end

/-- A folded pair loads the upper bits of the absolute address, and nothing else changes. -/
theorem foldAuipcToLui_forms {code code₁ code₂ : List Byte} {a l v : Nat} {eff : BitVec 32}
    (folded : foldAuipcToLui code a v eff = pure code₁)
    (patched : patchLo12Abs code₁ l eff = pure code₂) (apart : a + 4 ≤ l ∨ l + 4 ≤ a)
    (pair : AddressPair code a l) :
    code₂.length = code.length ∧
      (∀ i, ¬ (a ≤ i ∧ i < a + 4) → ¬ (l ≤ i ∧ i < l + 4) → code₂[i]? = code[i]?) ∧
      rdField (wordAt code₂ a) = rdField (wordAt code a) ∧
      (wordAt code₂ a).extractLsb' 0 7 = 0b0110111#7 ∧
      KeepsBits (wordAt code l) (wordAt code₂ l) ∧
      ∀ codeBase, Forms codeBase a (wordAt code₂ a) (wordAt code₂ l) eff := by
  obtain ⟨imm, lower⟩ := pair.lower
  have insideA := pair.insideUpper
  obtain ⟨-, folded⟩ := Attempt.ite_throw_eq_pure.mp folded
  rw [readWord_eq, if_pos insideA, pure_bind] at folded
  obtain ⟨-, folded⟩ := Attempt.ite_throw_eq_pure.mp folded
  obtain rfl := Attempt.pure_inj.mp folded
  have len : (splice code a (wordBytes (patchUpper opLui (wordAt code a) eff))).length =
      code.length := @length_splice code (wordBytes _) a insideA
  have insideL : l + 4 ≤ (splice code a
      (wordBytes (patchUpper opLui (wordAt code a) eff))).length := by
    rw [len]
    exact pair.insideLower
  rw [patchLo12Abs, patchLo12_eq insideL] at patched
  obtain rfl := Attempt.pure_inj.mp patched
  have first : wordAt (Patch.apply (splice code a (wordBytes (patchUpper opLui (wordAt code a) eff)))
      ⟨l, setLower eff⟩) a = patchUpper opLui (wordAt code a) eff := by
    rw [Patch.apply, if_pos insideL, wordAt_splice_apart insideL _ (by omega),
      wordAt_splice_self insideA]
  have second : wordAt (Patch.apply
      (splice code a (wordBytes (patchUpper opLui (wordAt code a) eff))) ⟨l, setLower eff⟩) l =
      setLower eff (wordAt code l) := by
    rw [Patch.apply, if_pos insideL, wordAt_splice_self insideL, wordAt_splice_apart insideA _ apart]
  obtain ⟨upper, rd, opcode⟩ := fields_patchUpper (wordAt code a) eff (.inr rfl)
  rw [first, second]
  refine ⟨(length_apply _ _).trans len, fun i outA outL => ?_, rd, opcode,
    (tame_setLower l eff).keeps _, fun codeBase => ?_⟩
  · rw [getElem?_apply outL, @getElem?_splice code (wordBytes _) a insideA]
    exact if_neg outA
  · refine forms_of_upper pair.register (addressBase_setLower lower rfl eff)
      (.inl ⟨?_, upperBits_add_lowerBits eff⟩)
    rw [(instOf_upper (by rw [rd]; exact pair.register)).2 opcode, rd, upper]

/-- Rewritten pairs form the addresses they are rewritten for, and only immediates are rewritten
(and the opcode of a folded AUIPC). -/
theorem addressPairs_exact :
    (∀ {code code₁ code₂ : List Byte} {a l v : Nat} {eff : BitVec 32},
      foldAuipcToLui code a v eff = pure code₁ → patchLo12Abs code₁ l eff = pure code₂ →
      (a + 4 ≤ l ∨ l + 4 ≤ a) → AddressPair code a l →
      code₂.length = code.length ∧
        (∀ i, ¬ (a ≤ i ∧ i < a + 4) → ¬ (l ≤ i ∧ i < l + 4) → code₂[i]? = code[i]?) ∧
        rdField (wordAt code₂ a) = rdField (wordAt code a) ∧
        (wordAt code₂ a).extractLsb' 0 7 = 0b0110111#7 ∧
        KeepsBits (wordAt code l) (wordAt code₂ l) ∧
        ∀ codeBase, Forms codeBase a (wordAt code₂ a) (wordAt code₂ l) eff) ∧
    ∀ {offsetMap codeAuipc : SortedMap Nat Nat} {codeLo12 : List (Nat × Nat × Nat)}
      {code code' : List Byte}, fixupCodePcrel offsetMap codeAuipc codeLo12 code = pure code' →
      RecordedApart offsetMap (recordedOffsets codeAuipc codeLo12) code →
      OnlyImmediates code code' (recordedSites offsetMap codeAuipc codeLo12) ∧
        ∀ {a t l na nt nl : Nat} {before after : List (Nat × Nat × Nat)},
          offsetMap.lookup a = some na → offsetMap.lookup t = some nt →
          offsetMap.lookup l = some nl → (a, t) ∈ codeAuipc.entries →
          codeLo12 = before ++ (l, a, t) :: after → (∀ e ∈ after, e.1 ≠ l) →
          AddressPair code na nl → ∀ codeBase, Forms codeBase na (wordAt code' na)
            (wordAt code' nl) (codeBase + BitVec.ofNat 32 nt) := by
  refine ⟨foldAuipcToLui_forms, fun ran apart => ⟨?_, fun atA atT atL recordedA recordedL last pair
    codeBase => fixupCodePcrel_forms ran apart atA atT atL recordedA recordedL last pair codeBase⟩⟩
  obtain ⟨found, rfl⟩ := fixupCodePcrel_patches ran
  obtain ⟨-, words, bytes⟩ := foldl_apply_spec tame_patches (clear_of_recorded found apart)
  exact ⟨length_foldl_apply _ _, bytes, fun p member inside long => (words p member inside long).1⟩

/-- An AUIPC and an ADDI of its register: folded for an absolute address, and rewritten for a target
that moved to 4092. Both times the lower bits are negative, and the upper ones are rounded up for
them. -/
theorem addressPairs_exact_moved :
    (∀ codeBase, Forms codeBase 0 0x10001537 0xFFC50513 0x10000FFC) ∧
    Forms 0x400000 0 0x00001517 0xFFC50513 (0x400000 + BitVec.ofNat 32 4092) := by
  let code := wordBytes 0x00000517 ++ wordBytes 0x00050513
  have pair : AddressPair code 0 4 := ⟨by decide, by decide, by decide, by decide, 0, by decide⟩
  constructor
  · have folded : foldAuipcToLui code 0 0 0x10000FFC =
        pure (wordBytes 0x10001537 ++ wordBytes 0x00050513) := by decide +kernel
    have patched : patchLo12Abs (wordBytes 0x10001537 ++ wordBytes 0x00050513) 4 0x10000FFC =
        pure (wordBytes 0x10001537 ++ wordBytes 0xFFC50513) := by decide +kernel
    exact (addressPairs_exact.1 folded patched (.inl (by decide)) pair).2.2.2.2.2
  · let code' := wordBytes 0x00001517 ++ wordBytes 0xFFC50513
    let offsetMap : SortedMap Nat Nat := ⟨[(0, 0), (4, 4), (100, 4092)], by decide⟩
    let codeAuipc : SortedMap Nat Nat := ⟨[(0, 100)], by decide⟩
    have ran : fixupCodePcrel offsetMap codeAuipc [(4, 0, 100)] code = pure code' := by
      decide +kernel
    have apart : RecordedApart offsetMap (recordedOffsets codeAuipc [(4, 0, 100)]) code := by
      intro p member q member' distinct p' q' at' at'' long
      have moved : ∀ r ∈ [0, 4], offsetMap.lookup r = some r := by decide
      have same : p = p' := Option.some.inj ((moved p member).symm.trans at')
      have same' : q = q' := Option.some.inj ((moved q member').symm.trans at'')
      have aligned : ∀ r ∈ [0, 4], r % 4 = 0 := by decide
      have := aligned p member
      have := aligned q member'
      omega
    have words : wordAt code' 0 = 0x00001517 ∧ wordAt code' 4 = 0xFFC50513 := by decide
    have forms : Forms 0x400000 0 (wordAt code' 0) (wordAt code' 4)
        (0x400000 + BitVec.ofNat 32 4092) :=
      (addressPairs_exact.2 ran apart).2 rfl rfl rfl (.head _) (List.nil_append _).symm nofun pair
        0x400000
    rwa [words.1, words.2] at forms

end Jar.Linker
