import Jar.Ssz.Wire

/-! What an accepted offset table says about its bytes, and when writing it again restores them. -/

namespace Jar.Ssz

open Attempt

variable {T : Type}

/-! ## Slices and chunks -/

theorem slice_eq_pure {bytes part : List Byte} {start stop : Nat} :
    slice bytes start stop = pure part ↔
      start ≤ stop ∧ stop ≤ bytes.length ∧ part = (bytes.drop start).take (stop - start) := by
  unfold slice
  split
  · next inside => exact pure_inj.trans ⟨fun same => ⟨inside.1, inside.2, same.symm⟩,
      fun found => found.2.2.symm⟩
  · next outside => exact ⟨fun ran => absurd ran crash_ne_pure,
      fun found => absurd ⟨found.1, found.2.1⟩ outside⟩

theorem slice_bind_eq_pure {bytes : List Byte} {start stop : Nat} {element : List Byte → Decoder T}
    {value : T} : slice bytes start stop >>= element = pure value ↔
      start ≤ stop ∧ stop ≤ bytes.length ∧
        element ((bytes.drop start).take (stop - start)) = pure value := by
  rw [bind_eq_pure]
  simp only [slice_eq_pure]
  constructor
  · rintro ⟨_, ⟨ordered, inside, rfl⟩, ran⟩
    exact ⟨ordered, inside, ran⟩
  · rintro ⟨ordered, inside, ran⟩
    exact ⟨_, ⟨ordered, inside, rfl⟩, ran⟩

def chunks (bytes : List Byte) (size count : Nat) : List (List Byte) :=
  (List.range count).map fun i => (bytes.drop (i * size)).take size

theorem flatten_chunks (bytes : List Byte) (size count : Nat) :
    (chunks bytes size count).flatten = bytes.take (count * size) := by
  induction count with
  | zero => simp [chunks]
  | succ count ih =>
    rw [chunks] at ih ⊢
    rw [List.range_succ, List.map_append, List.flatten_append, ih, Nat.succ_mul, List.take_add,
      List.map_singleton, List.flatten_singleton]

theorem offsetAt_lt (bytes : List Byte) (pos : Nat) : offsetAt bytes pos < 2 ^ 32 := by
  have bound := LittleEndian.decode_lt ((bytes.drop pos).take bytesPerLengthOffset)
  have short := List.length_take_le bytesPerLengthOffset (bytes.drop pos)
  exact Nat.lt_of_lt_of_le bound (Nat.pow_le_pow_right (by decide) short)

theorem encode_offsetAt {bytes : List Byte} {pos : Nat} (inside : pos + 4 ≤ bytes.length) :
    LittleEndian.encode 4 (offsetAt bytes pos) = (bytes.drop pos).take 4 := by
  have full : ((bytes.drop pos).take 4).length = 4 := by
    rw [List.length_take, List.length_drop]
    omega
  have restored := LittleEndian.encode_decode ((bytes.drop pos).take 4)
  rwa [full] at restored

/-! ## Accepted tables -/

/-- The offsets in the table at the start of the bytes, as many as the first one tells. -/
def tableOffsets (bytes : List Byte) : List Nat :=
  (List.range (offsetAt bytes 0 / 4)).map fun i => offsetAt bytes (i * 4)

/-- The bytes between each offset and the next. -/
def cut (bytes : List Byte) : List Nat → List (List Byte)
  | start :: stop :: rest => (bytes.drop start).take (stop - start) :: cut bytes (stop :: rest)
  | _ => []

/-- The payloads of the table: each ends where the next starts, the last at the end. -/
def tableSlices (bytes : List Byte) : List (List Byte) :=
  cut bytes (tableOffsets bytes ++ [bytes.length])

/-- The offsets of a table are in order and inside the bytes. -/
structure AcceptedTable (bytes : List Byte) : Prop where
  aligned : offsetAt bytes 0 % 4 = 0
  inside : offsetAt bytes 0 ≤ bytes.length
  ordered : (tableOffsets bytes).IsChain (· ≤ ·)
  bounded : ∀ off ∈ tableOffsets bytes, off ≤ bytes.length

theorem tableEntry_eq_pure {short : Nat → DecodeError} {bytes : List Byte} {i off : Nat} :
    tableEntry short bytes i = pure off ↔
      (i + 1) * 4 ≤ bytes.length ∧ off = offsetAt bytes (i * 4) := by
  unfold tableEntry bytesPerLengthOffset
  rw [ite_throw_eq_pure, pure_inj, Nat.not_lt]
  exact and_congr_right fun _ => eq_comm

/-- The entries that are read lie in order behind the previous one. -/
theorem of_readOffsets {short : Nat → DecodeError} {bytes : List Byte} {first count i prev : Nat}
    {offsets : List Nat} (read : readOffsets short bytes first count i prev = pure offsets) :
    offsets = (List.range' i count).map (fun j => offsetAt bytes (j * 4)) ∧
      (prev :: offsets).IsChain (· ≤ ·) ∧ ∀ off ∈ offsets, off ≤ bytes.length := by
  induction count generalizing i prev offsets with
  | zero =>
    cases pure_inj.mp read
    exact ⟨rfl, .singleton _, fun _ member => nomatch member⟩
  | succ count ih =>
    obtain ⟨off, entry, read⟩ := bind_eq_pure.mp read
    obtain ⟨-, rfl⟩ := tableEntry_eq_pure.mp entry
    obtain ⟨notBefore, read⟩ := ite_throw_eq_pure.mp read
    obtain ⟨inside, read⟩ := ite_throw_eq_pure.mp read
    obtain ⟨rest, others, read⟩ := bind_eq_pure.mp read
    cases pure_inj.mp read
    obtain ⟨rfl, chain, bounded⟩ := ih others
    refine ⟨rfl, .cons_cons (Nat.not_lt.mp notBefore) chain, fun off member => ?_⟩
    rcases List.mem_cons.mp member with rfl | later
    · exact Nat.not_lt.mp inside
    · exact bounded off later

/-- Decoding along consecutive offsets decodes what lies between them. -/
theorem mapM_spans {bytes : List Byte} {element : List Byte → Decoder T} {offsets : List Nat}
    {values : List T}
    (read : (offsets.zip offsets.tail).mapM (fun span => slice bytes span.1 span.2 >>= element) =
      pure values) :
    List.Forall₂ (fun part value => element part = pure value) (cut bytes offsets) values := by
  induction offsets generalizing values with
  | nil =>
    cases pure_inj.mp read
    exact .nil
  | cons start rest ih =>
    cases rest with
    | nil =>
      cases pure_inj.mp read
      exact .nil
    | cons stop rest =>
      rw [List.tail_cons, List.zip_cons_cons, mapM_eq_pure] at read
      obtain ⟨_, _, first, others, rfl⟩ := List.forall₂_cons_left_iff.mp read
      exact .cons (slice_bind_eq_pure.mp first).2.2 (ih (mapM_eq_pure.mpr others))

theorem of_decodeOffsetTable {short : List Byte → Nat → DecodeError}
    {element : List Byte → Decoder T} {bytes : List Byte} {expectedLen : Option Nat}
    {values : List T} (nonempty : bytes ≠ [])
    (read : decodeOffsetTable short element bytes expectedLen = pure values) :
    AcceptedTable bytes ∧
      List.Forall₂ (fun part value => element part = pure value) (tableSlices bytes) values := by
  unfold decodeOffsetTable at read
  rw [if_neg (by simpa using nonempty)] at read
  obtain ⟨first, entry, read⟩ := bind_eq_pure.mp read
  obtain ⟨-, same⟩ := tableEntry_eq_pure.mp entry
  rw [Nat.zero_mul] at same
  obtain ⟨aligned, read⟩ := ite_throw_eq_pure.mp read
  obtain ⟨inside, read⟩ := ite_throw_eq_pure.mp read
  obtain ⟨-, read⟩ := ite_throw_eq_pure.mp read
  obtain ⟨later, others, read⟩ := bind_eq_pure.mp read
  obtain ⟨table, chain, bounded⟩ := of_readOffsets others
  have aligned : first % 4 = 0 := Decidable.not_not.mp aligned
  have inside := Nat.not_lt.mp inside
  unfold bytesPerLengthOffset at read table
  rcases Nat.eq_zero_or_pos (first / 4) with none | some
  · -- No item is announced, so nothing behind the table is looked at.
    rw [none] at read
    have noOffsets : tableOffsets bytes = [] := by rw [tableOffsets, ← same, none]; rfl
    refine ⟨⟨same ▸ aligned, same ▸ inside, ?_, ?_⟩, ?_⟩
    · rw [noOffsets]
      exact .nil
    · rw [noOffsets]
      exact fun _ member => nomatch member
    · rw [tableSlices, noOffsets]
      exact mapM_eq_pure.mp read
  · have offsets : tableOffsets bytes = first :: later := by
      obtain ⟨n, count⟩ := Nat.exists_eq_add_of_lt some
      rw [Nat.zero_add] at count
      rw [tableOffsets, ← same, count, List.range_eq_range', List.range'_succ, List.map_cons,
        Nat.zero_mul, ← same, table, count, Nat.add_sub_cancel, Nat.zero_add]
    refine ⟨⟨same ▸ aligned, same ▸ inside, offsets ▸ chain, ?_⟩, ?_⟩
    · rw [offsets]
      intro off member
      rcases List.mem_cons.mp member with rfl | member
      · exact inside
      · exact bounded off member
    · rw [tableSlices, offsets]
      have count : later.length = first / 4 - 1 := by
        rw [table, List.length_map, List.length_range']
      have whole := List.take_of_length_le (i := first / 4)
        (l := (first :: later ++ [bytes.length]).zip (first :: later ++ [bytes.length]).tail) (by
          rw [List.length_zip, List.length_tail, List.length_append, List.length_cons,
            List.length_singleton, count]
          omega)
      apply mapM_spans
      rw [← whole]
      exact read

theorem values_of_decode_nil {short : List Byte → Nat → DecodeError}
    {element : List Byte → Decoder T} {expectedLen : Option Nat} {values : List T}
    (read : decodeOffsetTable short element [] expectedLen = pure values) : values = [] := by
  unfold decodeOffsetTable at read
  rw [if_pos List.isEmpty_nil] at read
  split at read
  · exact (pure_inj.mp read).symm
  · exact (pure_inj.mp read).symm
  · exact absurd read throw_ne_pure

theorem values_of_decodeOffsetTable {short : List Byte → Nat → DecodeError}
    {element : List Byte → Decoder T} {bytes : List Byte} {expectedLen : Option Nat}
    {values : List T} (read : decodeOffsetTable short element bytes expectedLen = pure values) :
    List.Forall₂ (fun part value => element part = pure value) (tableSlices bytes) values := by
  by_cases empty : bytes = []
  · subst empty
    rw [values_of_decode_nil read]
    exact .nil
  · exact (of_decodeOffsetTable empty read).2

/-! ## The bytes of an accepted table -/

/-- What lies between ordered offsets up to the end is everything from the first one on. -/
theorem flatten_cut {bytes : List Byte} {start : Nat} {rest : List Nat}
    (ordered : (start :: rest).IsChain (· ≤ ·)) (bounded : ∀ off ∈ start :: rest, off ≤ bytes.length) :
    (cut bytes (start :: rest ++ [bytes.length])).flatten = bytes.drop start := by
  induction rest generalizing start with
  | nil =>
    change ((bytes.drop start).take (bytes.length - start) :: []).flatten = _
    rw [List.flatten_singleton, List.take_of_length_le (by rw [List.length_drop])]
  | cons stop rest ih =>
    obtain ⟨notBefore, ordered⟩ := List.isChain_cons_cons.mp ordered
    change ((bytes.drop start).take (stop - start) ::
      cut bytes (stop :: rest ++ [bytes.length])).flatten = _
    rw [List.flatten_cons, ih ordered fun off member => bounded off (List.mem_cons_of_mem _ member)]
    nth_rewrite 2 [← List.take_append_drop (stop - start) (bytes.drop start)]
    rw [List.drop_drop, Nat.add_sub_cancel' notBefore]

/-- An accepted table that announces an item covers its bytes: the offsets, then the payloads. -/
theorem AcceptedTable.split {bytes : List Byte} (accepted : AcceptedTable bytes)
    (some : offsetAt bytes 0 ≠ 0) :
    bytes = (tableOffsets bytes).flatMap (LittleEndian.encode 4) ++ (tableSlices bytes).flatten ∧
      ((tableOffsets bytes).flatMap (LittleEndian.encode 4)).length = offsetAt bytes 0 := by
  obtain ⟨aligned, inside, ordered, bounded⟩ := accepted
  have count : offsetAt bytes 0 / 4 * 4 = offsetAt bytes 0 := by omega
  have table : (tableOffsets bytes).flatMap (LittleEndian.encode 4) =
      bytes.take (offsetAt bytes 0) := by
    rw [← count, ← flatten_chunks, tableOffsets, List.flatMap_map, List.flatMap_def, chunks]
    congr 1
    refine List.map_congr_left fun i member => encode_offsetAt ?_
    have below := List.mem_range.mp member
    omega
  obtain ⟨n, some⟩ : ∃ n, offsetAt bytes 0 / 4 = n + 1 :=
    ⟨offsetAt bytes 0 / 4 - 1, by omega⟩
  have offsets : tableOffsets bytes =
      offsetAt bytes 0 :: (List.range' 1 n).map fun i => offsetAt bytes (i * 4) := by
    rw [tableOffsets, some, List.range_eq_range', List.range'_succ, List.map_cons, Nat.zero_mul,
      Nat.zero_add]
  have payloads : (tableSlices bytes).flatten = bytes.drop (offsetAt bytes 0) := by
    rw [tableSlices, offsets]
    rw [offsets] at ordered bounded
    exact flatten_cut ordered bounded
  rw [payloads, table, List.take_append_drop, List.length_take, Nat.min_eq_left inside]
  exact ⟨rfl, rfl⟩

/-! ## Writing a table -/

def runningOffsets : Nat → List (List Byte) → List Nat
  | _, [] => []
  | running, payload :: rest => running :: runningOffsets (running + payload.length % 2 ^ 32) rest

/-- No step of the running offset overflows. -/
def OffsetsFit : Nat → List (List Byte) → Prop
  | _, [] => True
  | running, payload :: rest =>
    running + payload.length % 2 ^ 32 < 2 ^ 32 ∧
      OffsetsFit (running + payload.length % 2 ^ 32) rest

theorem advance_eq_some {running len next : Nat} :
    advance running len = some next ↔
      running + len % 2 ^ 32 < 2 ^ 32 ∧ next = running + len % 2 ^ 32 := by
  unfold advance
  rw [Option.ite_none_right_eq_some, Option.some_inj]
  exact and_congr_right fun _ => eq_comm

/-- Writing items succeeds exactly when each has an encoding and the offsets fit. -/
theorem encodeItems_eq_some {encode : T → Option (List Byte)} {running : Nat} {items : List T}
    {out : List Byte × List Byte} :
    encodeItems encode running items = some out ↔
      ∃ payloads, List.Forall₂ (fun item payload => encode item = some payload) items payloads ∧
        OffsetsFit running payloads ∧
        out = ((runningOffsets running payloads).flatMap (LittleEndian.encode 4),
          payloads.flatten) := by
  induction items generalizing running out with
  | nil =>
    constructor
    · intro ran
      exact ⟨[], .nil, trivial, (Option.some.inj ran).symm⟩
    · rintro ⟨_, (_ | _), _, rfl⟩
      rfl
  | cons item rest ih =>
    simp only [encodeItems, Option.bind_eq_bind, Option.bind_eq_some_iff, advance_eq_some, ih]
    constructor
    · rintro ⟨payload, first, _, ⟨fits, rfl⟩, _, ⟨payloads, others, room, rfl⟩, ran⟩
      exact ⟨payload :: payloads, .cons first others, ⟨fits, room⟩, (Option.some.inj ran).symm⟩
    · rintro ⟨_, (_ | ⟨first, others⟩), ⟨fits, room⟩, rfl⟩
      exact ⟨_, first, _, ⟨fits, rfl⟩, _, ⟨_, others, room, rfl⟩, rfl⟩

theorem length_runningOffsets (running : Nat) (payloads : List (List Byte)) :
    ((runningOffsets running payloads).flatMap (LittleEndian.encode 4)).length =
      payloads.length * 4 := by
  induction payloads generalizing running with
  | nil => rfl
  | cons payload rest ih =>
    rw [runningOffsets, List.flatMap_cons, List.length_append, LittleEndian.length_encode, ih,
      List.length_cons]
    omega

theorem runningOffsets_cut {bytes : List Byte} {start : Nat} {rest : List Nat}
    (ordered : (start :: rest).IsChain (· ≤ ·)) (bounded : ∀ off ∈ start :: rest, off ≤ bytes.length)
    (small : ∀ off ∈ start :: rest, off < 2 ^ 32) :
    runningOffsets start (cut bytes (start :: rest ++ [bytes.length])) = start :: rest := by
  induction rest generalizing start with
  | nil => rfl
  | cons stop rest ih =>
    obtain ⟨notBefore, ordered⟩ := List.isChain_cons_cons.mp ordered
    have inside := bounded stop (by simp)
    have narrow := small stop (by simp)
    have len : ((bytes.drop start).take (stop - start)).length = stop - start := by
      rw [List.length_take, List.length_drop]
      omega
    change start :: runningOffsets (start + ((bytes.drop start).take (stop - start)).length % 2 ^ 32)
      (cut bytes (stop :: rest ++ [bytes.length])) = _
    rw [len, Nat.mod_eq_of_lt (by omega), Nat.add_sub_cancel' notBefore,
      ih ordered (fun off member => bounded off (List.mem_cons_of_mem _ member))
        (fun off member => small off (List.mem_cons_of_mem _ member))]

/-- Among the steps of an accepted table only the last one, over the payload that ends with the
bytes, can overflow. -/
theorem offsetsFit_cut {bytes : List Byte} {start : Nat} {rest : List Nat}
    (ordered : (start :: rest).IsChain (· ≤ ·)) (bounded : ∀ off ∈ start :: rest, off ≤ bytes.length)
    (small : ∀ off ∈ start :: rest, off < 2 ^ 32) :
    OffsetsFit start (cut bytes (start :: rest ++ [bytes.length])) ↔
      (start :: rest).getLast (List.cons_ne_nil _ _) +
        (bytes.length - (start :: rest).getLast (List.cons_ne_nil _ _)) % 2 ^ 32 < 2 ^ 32 := by
  induction rest generalizing start with
  | nil =>
    change _ + ((bytes.drop start).take (bytes.length - start)).length % 2 ^ 32 < 2 ^ 32 ∧ True ↔ _
    rw [List.length_take, List.length_drop, Nat.min_self, and_true]
    rfl
  | cons stop rest ih =>
    obtain ⟨notBefore, ordered⟩ := List.isChain_cons_cons.mp ordered
    have inside := bounded stop (by simp)
    have narrow := small stop (by simp)
    have len : ((bytes.drop start).take (stop - start)).length = stop - start := by
      rw [List.length_take, List.length_drop]
      omega
    change _ + ((bytes.drop start).take (stop - start)).length % 2 ^ 32 < 2 ^ 32 ∧
      OffsetsFit (start + ((bytes.drop start).take (stop - start)).length % 2 ^ 32)
        (cut bytes (stop :: rest ++ [bytes.length])) ↔ _
    rw [len, Nat.mod_eq_of_lt (show stop - start < 2 ^ 32 by omega), Nat.add_sub_cancel' notBefore,
      ih ordered (fun off member => bounded off (List.mem_cons_of_mem _ member))
        (fun off member => small off (List.mem_cons_of_mem _ member)),
      List.getLast_cons (List.cons_ne_nil _ _)]
    exact and_iff_right narrow

/-! ## Reading and writing again -/

def lastOffset (bytes : List Byte) : Nat := offsetAt bytes (offsetAt bytes 0 - 4)

/-- The bytes are empty, or their first offset is not zero and the step over the last payload
stays below `2 ^ 32`. -/
def TableTight (bytes : List Byte) : Prop :=
  bytes = [] ∨ offsetAt bytes 0 ≠ 0 ∧
    lastOffset bytes + (bytes.length - lastOffset bytes) % 2 ^ 32 < 2 ^ 32

/-- Byte strings that are pointwise no longer, with the same concatenation, are the same. -/
theorem eq_of_flatten_eq {parts parts' : List (List Byte)}
    (shorter : List.Forall₂ (fun part part' => part.length ≤ part'.length) parts parts')
    (same : parts.flatten = parts'.flatten) : parts = parts' := by
  have total {parts parts' : List (List Byte)}
      (shorter : List.Forall₂ (fun part part' => part.length ≤ part'.length) parts parts') :
      parts.flatten.length ≤ parts'.flatten.length := by
    induction shorter with
    | nil => exact Nat.le_refl 0
    | cons first _ ih =>
      rw [List.flatten_cons, List.flatten_cons, List.length_append, List.length_append]
      omega
  induction shorter with
  | nil => rfl
  | cons first others ih =>
    rw [List.flatten_cons, List.flatten_cons] at same
    have lengths := congrArg List.length same
    rw [List.length_append, List.length_append] at lengths
    have rest := total others
    obtain ⟨head, tail⟩ := List.append_inj same (by omega)
    rw [head, ih tail]

theorem length_cut (bytes : List Byte) (offsets : List Nat) (stop : Nat) :
    (cut bytes (offsets ++ [stop])).length = offsets.length := by
  induction offsets with
  | nil => rfl
  | cons start rest ih =>
    cases rest with
    | nil => rfl
    | cons next rest => exact congrArg (· + 1) ih

theorem length_tableSlices (bytes : List Byte) :
    (tableSlices bytes).length = offsetAt bytes 0 / 4 := by
  rw [tableSlices, length_cut, tableOffsets, List.length_map, List.length_range]

theorem encodeOffsetTable_eq_some {encode : T → Option (List Byte)} {items : List T}
    {bytes : List Byte} :
    encodeOffsetTable encode items = some bytes ↔
      ∃ payloads, List.Forall₂ (fun item payload => encode item = some payload) items payloads ∧
        OffsetsFit (items.length * 4 % 2 ^ 32) payloads ∧
        bytes = (runningOffsets (items.length * 4 % 2 ^ 32) payloads).flatMap
          (LittleEndian.encode 4) ++ payloads.flatten := by
  simp only [encodeOffsetTable, bytesPerLengthOffset, Option.bind_eq_bind, Option.bind_eq_some_iff,
    encodeItems_eq_some]
  constructor
  · rintro ⟨_, ⟨payloads, written, fit, rfl⟩, ran⟩
    exact ⟨payloads, written, fit, (Option.some.inj ran).symm⟩
  · rintro ⟨payloads, written, fit, rfl⟩
    exact ⟨_, ⟨payloads, written, fit, rfl⟩, rfl⟩

/-- The table that is written for the payloads of an accepted table is that table, if the last
step fits. -/
theorem AcceptedTable.rewrite {bytes : List Byte} (accepted : AcceptedTable bytes)
    (some : offsetAt bytes 0 ≠ 0) :
    runningOffsets (offsetAt bytes 0) (tableSlices bytes) = tableOffsets bytes ∧
      (OffsetsFit (offsetAt bytes 0) (tableSlices bytes) ↔
        lastOffset bytes + (bytes.length - lastOffset bytes) % 2 ^ 32 < 2 ^ 32) := by
  have aligned := accepted.aligned
  have ordered := accepted.ordered
  have bounded := accepted.bounded
  have small : ∀ off ∈ tableOffsets bytes, off < 2 ^ 32 := by
    intro off member
    obtain ⟨i, -, rfl⟩ := List.mem_map.mp member
    exact offsetAt_lt bytes (i * 4)
  obtain ⟨n, count⟩ : ∃ n, offsetAt bytes 0 / 4 = n + 1 :=
    ⟨offsetAt bytes 0 / 4 - 1, by omega⟩
  have offsets : tableOffsets bytes =
      offsetAt bytes 0 :: (List.range' 1 n).map fun i => offsetAt bytes (i * 4) := by
    rw [tableOffsets, count, List.range_eq_range', List.range'_succ, List.map_cons, Nat.zero_mul,
      Nat.zero_add]
  have last : (tableOffsets bytes).getLast? = lastOffset bytes := by
    have position : n * 4 = offsetAt bytes 0 - 4 := by omega
    rw [tableOffsets, count, List.range_succ, List.map_append, List.map_singleton,
      List.getLast?_concat, position, lastOffset]
  rw [offsets] at ordered bounded small last
  rw [tableSlices, offsets]
  refine ⟨runningOffsets_cut ordered bounded small, ?_⟩
  rw [offsetsFit_cut ordered bounded small]
  rw [List.getLast?_eq_some_getLast (List.cons_ne_nil _ _)] at last
  rw [Option.some.inj last]

theorem forall₂_compose {A B C : Type} {R : A → B → Prop} {S : B → C → Prop} {Q : A → C → Prop}
    (step : ∀ a b c, R a b → S b c → Q a c) {as : List A} {bs : List B} {cs : List C}
    (first : List.Forall₂ R as bs) (second : List.Forall₂ S bs cs) : List.Forall₂ Q as cs := by
  induction first generalizing cs with
  | nil =>
    cases second
    exact .nil
  | cons related _ ih =>
    obtain ⟨_, _, next, others, rfl⟩ := List.forall₂_cons_left_iff.mp second
    exact .cons (step _ _ _ related next) (ih others)

/-- A table that was read is written back to the same bytes exactly when it is tight and each of
its payloads is written back. Elements may not grow when they are written. -/
theorem encodeOffsetTable_iff {short : List Byte → Nat → DecodeError}
    {element : List Byte → Decoder T} {encode : T → Option (List Byte)} {bytes : List Byte}
    {expectedLen : Option Nat} {values : List T}
    (read : decodeOffsetTable short element bytes expectedLen = pure values)
    (shrinks : ∀ part value payload, element part = pure value → encode value = some payload →
      payload.length ≤ part.length) :
    encodeOffsetTable encode values = some bytes ↔
      TableTight bytes ∧
        List.Forall₂ (fun part value => encode value = some part) (tableSlices bytes) values := by
  by_cases empty : bytes = []
  · subst empty
    rw [values_of_decode_nil read]
    exact ⟨fun _ => ⟨.inl rfl, .nil⟩, fun _ => rfl⟩
  obtain ⟨accepted, elements⟩ := of_decodeOffsetTable empty read
  have sameLength := elements.length_eq
  rw [length_tableSlices] at sameLength
  by_cases some : offsetAt bytes 0 = 0
  · -- The items are none, and what was ignored is not written back.
    have nothing : values = [] := by
      rw [some] at sameLength
      exact List.eq_nil_of_length_eq_zero sameLength.symm
    subst nothing
    refine ⟨fun ran => absurd (Option.some.inj ran).symm empty, fun both => ?_⟩
    rcases both.1 with none | ⟨first, -⟩
    · exact absurd none empty
    · exact absurd some first
  have aligned := accepted.aligned
  have header : values.length * 4 % 2 ^ 32 = offsetAt bytes 0 := by
    rw [Nat.mod_eq_of_lt] <;> have := offsetAt_lt bytes 0 <;> omega
  obtain ⟨split, tableLength⟩ := accepted.split some
  obtain ⟨offsets, fit⟩ := accepted.rewrite some
  rw [encodeOffsetTable_eq_some, header]
  constructor
  · rintro ⟨payloads, written, fits, same⟩
    -- Both tables have four bytes an item, so the payloads have the same concatenation.
    have tail : payloads.flatten = (tableSlices bytes).flatten := by
      refine (List.append_inj (same.symm.trans split) ?_).2
      rw [length_runningOffsets, tableLength, ← written.length_eq]
      omega
    have shorter : List.Forall₂ (fun payload part => payload.length ≤ part.length) payloads
        (tableSlices bytes) :=
      (forall₂_compose (fun part value payload => shrinks part value payload) elements written).flip
    have payloadsEq := eq_of_flatten_eq shorter tail
    subst payloadsEq
    exact ⟨.inr ⟨some, fit.mp fits⟩, written.flip⟩
  · rintro ⟨tight, written⟩
    rcases tight with none | ⟨-, step⟩
    · exact absurd none empty
    · refine ⟨tableSlices bytes, written.flip, fit.mpr step, ?_⟩
      rw [offsets]
      exact split

end Jar.Ssz
