import Jar.Program.Codec

/-! Which program blobs survive being written and read back. -/

namespace Jar.ProgramBlob

open Cursor
open scoped Word

/-! ## Trimming -/

theorem trimmedLen_append_singleton (data : List Byte) (b : Byte) :
    trimmedLen (data ++ [b]) = if b = 0 then trimmedLen data else data.length + 1 := by
  unfold trimmedLen
  rw [List.reverse_append, List.reverse_singleton, List.singleton_append, List.dropWhile_cons]
  by_cases zero : b = 0
  · rw [if_pos (decide_eq_true zero), if_pos zero]
  · rw [if_neg (by simpa using zero), if_neg zero, List.length_cons, List.length_reverse]

theorem trimmedLen_le (data : List Byte) : trimmedLen data ≤ data.length := by
  have shorter := (List.dropWhile_sublist (fun b : Byte => b = 0) (l := data.reverse)).length_le
  rwa [List.length_reverse] at shorter

theorem take_trimmedLen_append (data : List Byte) :
    data.take (trimmedLen data) ++ List.replicate (data.length - trimmedLen data) 0 = data := by
  induction data using List.reverseRecOn with
  | nil => rfl
  | append_singleton data b ih =>
    rw [trimmedLen_append_singleton]
    by_cases zero : b = 0
    · have short := trimmedLen_le data
      rw [if_pos zero, List.take_append_of_le_length short, List.length_append,
        List.length_singleton, Nat.sub_add_comm short, List.replicate_succ', ← List.append_assoc,
        ih, zero]
    · rw [if_neg zero, ← List.length_singleton (a := b), ← List.length_append, List.take_length,
        Nat.sub_self, List.replicate_zero, List.append_nil]

theorem trimmedLen_append_zeros (data : List Byte) (count : Nat) :
    trimmedLen (data ++ List.replicate count 0) ≤ data.length := by
  induction count with
  | zero => rw [List.replicate_zero, List.append_nil]; exact trimmedLen_le data
  | succ count ih =>
    rw [List.replicate_succ', ← List.append_assoc, trimmedLen_append_singleton, if_pos rfl]
    exact ih

/-! ## Reading back -/

variable {buf : List Byte}

theorem parses_bytes (bytes : List Byte) {n : Nat} (len : bytes.length = n) :
    Parses buf (take buf n) bytes bytes :=
  len ▸ parses_take DecodeError.truncated buf bytes

theorem parses_readUint {width value : Nat} (fits : value < 256 ^ width) :
    Parses buf (readUint buf width) (LittleEndian.encode width value) value := by
  have bytes : Parses buf (take buf width) _ _ :=
    parses_bytes (LittleEndian.encode width value) (LittleEndian.length_encode width value)
  have number := bytes.map LittleEndian.decode
  rwa [LittleEndian.decode_encode_of_lt fits] at number

theorem parses_word {width bits : Nat} (room : 256 ^ width = 2 ^ bits) (value : BitVec bits) :
    Parses buf (BitVec.ofNat bits <$> readUint buf width)
      (LittleEndian.encode width value.toNat) value := by
  have number : Parses buf (readUint buf width) (LittleEndian.encode width value.toNat)
      value.toNat := parses_readUint (room ▸ value.isLt)
  have word := number.map (BitVec.ofNat bits)
  rwa [BitVec.ofNat_toNat, BitVec.setWidth_eq] at word

theorem parses_readU8 (b : Byte) : Parses buf (readU8 buf) [b] b := by
  have single : LittleEndian.encode 1 b.toNat = [b] := by simp [LittleEndian.encode]
  rw [← single]
  exact parses_word (by rfl) b

theorem parses_readU32 (value : BitVec 32) :
    Parses buf (readU32 buf) (LittleEndian.encode 4 value.toNat) value :=
  parses_word (by rfl) value

theorem parses_length {len : Nat} (fits : len < 2 ^ 32) :
    Parses buf (readU32 buf) (LittleEndian.encode 4 len) (BitVec.ofNat 32 len) := by
  have same : (BitVec.ofNat 32 len).toNat = len := by
    rw [BitVec.toNat_ofNat, Nat.mod_eq_of_lt fits]
  nth_rewrite 1 [← same]
  exact parses_readU32 _

theorem parses_readU64 (value : BitVec 64) :
    Parses buf (readU64 buf) (LittleEndian.encode 8 value.toNat) value :=
  parses_word (by rfl) value

/-- The rest of a map's registers, with the smaller ones read before. -/
theorem parses_readRegs {whole : SortedMap Byte (BitVec 64)} {later : List (Byte × BitVec 64)}
    (read : SortedMap Byte (BitVec 64)) (split : whole.entries = read.entries ++ later) :
    Parses buf (readRegs buf later.length read) (later.flatMap regBytes) whole := by
  induction later generalizing read with
  | nil =>
    rw [List.append_nil] at split
    rw [SortedMap.ext split]
    exact .pure
  | cons reg later ih =>
    have grown : (read.insert reg.1 reg.2).entries = read.entries ++ [reg] :=
      SortedMap.insertEntry_of_lt (SortedMap.lt_of_append split) reg.2
    have rest := ih (read.insert reg.1 reg.2)
      (by rw [grown, split, List.append_assoc, List.singleton_append])
    rw [List.flatMap_cons, regBytes, List.append_assoc, List.append_assoc]
    exact (parses_readU8 reg.1).bind ((parses_bytes _ rfl).bind ((parses_readU64 reg.2).bind rest))

theorem parses_readEndpoint (entry : Byte × Endpoint)
    (few : entry.2.initialRegs.entries.length < 256) :
    Parses buf (readEndpoint buf) (endpointBytes entry) entry := by
  have regs : Parses buf (readRegs buf entry.2.initialRegs.entries.length .empty)
      (entry.2.initialRegs.entries.flatMap regBytes) entry.2.initialRegs :=
    parses_readRegs .empty rfl
  have count : (BitVec.ofNat 8 entry.2.initialRegs.entries.length).toNat =
      entry.2.initialRegs.entries.length := by
    rw [BitVec.toNat_ofNat, Nat.mod_eq_of_lt few]
  rw [← count] at regs
  refine (parses_readU8 entry.1).bind ((parses_readU8 _).bind ((parses_readU8 _).bind
    ((parses_readU8 _).bind ((parses_readU64 _).bind ?_))))
  rw [← List.append_nil (entry.2.initialRegs.entries.flatMap regBytes)]
  exact regs.bind .pure

/-- The rest of the endpoints, with the smaller keys read before. -/
theorem parses_readEndpoints {whole : SortedMap Byte Endpoint} {later : List (Byte × Endpoint)}
    (read : SortedMap Byte Endpoint) (split : whole.entries = read.entries ++ later)
    (few : ∀ entry ∈ later, entry.2.initialRegs.entries.length < 256) :
    Parses buf (readEndpoints buf later.length read) (later.flatMap endpointBytes) whole := by
  induction later generalizing read with
  | nil =>
    rw [List.append_nil] at split
    rw [SortedMap.ext split]
    exact .pure
  | cons entry later ih =>
    have larger := SortedMap.lt_of_append split
    have grown : (read.insert entry.1 entry.2).entries = read.entries ++ [entry] :=
      SortedMap.insertEntry_of_lt larger entry.2
    have rest := ih (read.insert entry.1 entry.2)
      (by rw [grown, split, List.append_assoc, List.singleton_append])
      (fun e member => few e (List.mem_cons_of_mem entry member))
    have fresh : (read.lookup entry.1).isNone = true := by
      rw [SortedMap.lookup_eq_none_of_lt larger, Option.isNone_none]
    rw [List.flatMap_cons, ← List.nil_append (later.flatMap endpointBytes)]
    exact (parses_readEndpoint entry (few entry List.mem_cons_self)).bind
      ((parses_ensure fresh).bind rest)

theorem parses_readRegion {data : List Byte} {pages : BitVec 32}
    (filled : data.length = pages.toNat * pageSize) (small : trimmedLen data < 2 ^ 32) :
    Parses buf (readRegion buf (BitVec.ofNat 32 (trimmedLen data)) pages)
      (data.take (trimmedLen data)) data := by
  have len : (BitVec.ofNat 32 (trimmedLen data)).toNat = trimmedLen data := by
    rw [BitVec.toNat_ofNat, Nat.mod_eq_of_lt small]
  have short := trimmedLen_le data
  have bytes : Parses buf (take buf (trimmedLen data)) (data.take (trimmedLen data))
      (data.take (trimmedLen data)) :=
    parses_bytes _ (by rw [List.length_take, Nat.min_eq_left short])
  unfold readRegion
  rw [len]
  have extended := take_trimmedLen_append data
  rw [filled] at extended short
  have value : Parses buf (pure (data.take (trimmedLen data) ++
      List.replicate (pages.toNat * pageSize - trimmedLen data) 0) : Reader (List Byte)) [] data := by
    rw [extended]
    exact .pure
  rw [← List.nil_append (data.take (trimmedLen data)), ← List.append_nil (List.take _ data)]
  exact (parses_ensure (decide_eq_true short)).bind (bytes.bind value)

/-! ## Whole blobs -/

theorem parses_readPreamble :
    Parses buf (readPreamble buf)
      (magic ++ (LittleEndian.encode 2 version ++ LittleEndian.encode 2 0)) () := by
  have steps : magic ++ (LittleEndian.encode 2 version ++ LittleEndian.encode 2 0) =
      magic ++ ([] ++ (LittleEndian.encode 2 version ++ ([] ++ (LittleEndian.encode 2 0 ++ [])))) :=
    by simp only [List.nil_append, List.append_nil]
  rw [steps]
  exact (parses_bytes magic rfl).bind ((parses_ensure (decide_eq_true rfl)).bind
    ((parses_readUint (by decide)).bind ((parses_ensure (decide_eq_true rfl)).bind
      ((parses_readUint (by decide)).bind (parses_ensure (decide_eq_true rfl))))))

theorem parses_readRegions (regions : Regions) :
    Parses buf (readRegions buf) (regionBytes regions) regions :=
  (parses_readU32 _).bind ((parses_readU32 _).bind ((parses_readU32 _).bind
    ((parses_readU32 _).bind .pure)))

theorem validate_eq_ok {blob : ProgramBlob} : blob.validate = .ok () ↔
    blob.code.length ≤ maxCodeSize ∧ blob.regions.dataEnd ≤ addressSpaceEnd ∧
      blob.roData.length = blob.regions.roPages.toNat * pageSize ∧
      blob.rwData.length = blob.regions.rwPages.toNat * pageSize ∧
      blob.endpoints.entries ≠ [] := by
  have region (kind : RegionKind) (data : List Byte) (pages : BitVec 32) :
      validateRegion kind data pages =
        if data.length = pages.toNat * pageSize then .ok ()
        else .error (.regionLengthMismatch kind (pages.toNat * pageSize) data.length) := by
    rw [validateRegion]
    exact ite_not ..
  unfold validate
  rw [region, region]
  by_cases code : maxCodeSize < blob.code.length
  · simp [code]
  by_cases data : addressSpaceEnd < blob.regions.dataEnd
  · simp [code, data]
  by_cases ro : blob.roData.length = blob.regions.roPages.toNat * pageSize
  · by_cases rw' : blob.rwData.length = blob.regions.rwPages.toNat * pageSize
    · by_cases none : blob.endpoints.entries = []
      · simp [code, data, ro, rw', none, bind, Except.bind]
      · simp [code, data, ro, rw', none, bind, Except.bind]
        omega
    · simp [code, data, ro, rw', bind, Except.bind]
  · simp [code, data, ro, bind, Except.bind]

/-- What the format has room for: at most 255 registers an endpoint, and 32-bit lengths. -/
structure Encodable (blob : ProgramBlob) : Prop where
  fewRegs : ∀ entry ∈ blob.endpoints.entries, entry.2.initialRegs.entries.length < 256
  shortRo : trimmedLen blob.roData < 2 ^ 32
  shortRw : trimmedLen blob.rwData < 2 ^ 32

theorem length_entries_le {V : Type} (m : SortedMap Byte V) : m.entries.length ≤ 256 := by
  have distinct : (m.entries.map fun e => e.1.toNat).Nodup :=
    List.pairwise_map.mpr (m.sorted.imp fun below => Nat.ne_of_lt below)
  have small : (m.entries.map fun e => e.1.toNat) ⊆ List.range 256 := by
    intro key member
    obtain ⟨e, -, rfl⟩ := List.mem_map.mp member
    exact List.mem_range.mpr e.1.isLt
  have short := (distinct.subperm small).length_le
  rwa [List.length_map, List.length_range] at short

theorem parses_readBody {blob : ProgramBlob} (valid : blob.validate = .ok ())
    (room : blob.Encodable) :
    Parses buf (readBody buf blob.regions)
      (blob.lengthBytes ++ (blob.endpoints.entries.flatMap endpointBytes ++ (blob.code ++
        (blob.roData.take (trimmedLen blob.roData) ++
          blob.rwData.take (trimmedLen blob.rwData))))) blob := by
  obtain ⟨code, -, ro, rw', -⟩ := validate_eq_ok.mp valid
  have codeFits : blob.code.length < 2 ^ 32 := Nat.lt_of_le_of_lt code (by decide)
  have countFits : blob.endpoints.entries.length < 2 ^ 32 :=
    Nat.lt_of_le_of_lt (length_entries_le _) (by decide)
  have exactly {n : Nat} (fits : n < 2 ^ 32) : (BitVec.ofNat 32 n).toNat = n := by
    rw [BitVec.toNat_ofNat, Nat.mod_eq_of_lt fits]
  have endpoints : Parses buf
      (readEndpoints buf (BitVec.ofNat 32 blob.endpoints.entries.length).toNat .empty)
      (blob.endpoints.entries.flatMap endpointBytes) blob.endpoints := by
    rw [exactly countFits]
    exact parses_readEndpoints .empty rfl room.fewRegs
  have steps : blob.lengthBytes = LittleEndian.encode 4 blob.code.length ++
      (LittleEndian.encode 4 (trimmedLen blob.roData) ++
        (LittleEndian.encode 4 (trimmedLen blob.rwData) ++
          LittleEndian.encode 4 blob.endpoints.entries.length)) := by
    simp [lengthBytes]
  rw [steps, ← List.append_nil (blob.rwData.take _)]
  simp only [List.append_assoc]
  exact (parses_length codeFits).bind ((parses_length room.shortRo).bind
    ((parses_length room.shortRw).bind ((parses_length countFits).bind (endpoints.bind
      ((parses_bytes _ (exactly codeFits).symm).bind ((parses_readRegion ro room.shortRo).bind
        ((parses_readRegion rw' room.shortRw).bind .pure)))))))

/-- A file is accepted when its fields fill it and make a valid blob. -/
theorem fromBytes_eq_ok {bytes : List Byte} {blob : ProgramBlob} :
    fromBytes bytes = .ok blob ↔
      readBlob bytes 0 = .ok (blob, bytes.length) ∧ blob.validate = .ok () := by
  unfold fromBytes
  cases read : readBlob bytes 0 with
  | error e => simp
  | ok result =>
    obtain ⟨found, pos⟩ := result
    by_cases whole : pos = bytes.length
    · cases valid : found.validate with
      | error reason =>
        simp only [whole, ne_eq, not_true_eq_false, if_false, valid, Except.ok.injEq,
          Prod.mk.injEq, and_true, reduceCtorEq, false_iff, not_and]
        rintro rfl
        simp [valid]
      | ok _ =>
        simp only [whole, ne_eq, not_true_eq_false, if_false, valid, Except.ok.injEq,
          Prod.mk.injEq, and_true, iff_self_and]
        rintro rfl
        exact valid
    · simp [whole]

/-- A valid blob that fits the format is read back from its encoding. -/
theorem fromBytes_toBytes {blob : ProgramBlob} (valid : blob.validate = .ok ())
    (room : blob.Encodable) : fromBytes blob.toBytes = .ok blob := by
  have reads : Parses blob.toBytes (readBlob blob.toBytes) blob.toBytes blob := by
    have parts : Parses blob.toBytes (readBlob blob.toBytes) _ blob :=
      parses_readPreamble.bind ((parses_readRegions blob.regions).bind (parses_readBody valid room))
    simpa only [toBytes, List.append_assoc] using parts
  have whole := reads [] [] (by rw [List.nil_append, List.append_nil])
  rw [List.length_nil, Nat.zero_add] at whole
  exact fromBytes_eq_ok.mpr ⟨whole, valid⟩

/-! ## What can come out of the reader -/

theorem length_readRegs_le {count : Nat} {read result : SortedMap Byte (BitVec 64)}
    {pos pos' : Nat} (ran : readRegs buf count read pos = .ok (result, pos')) :
    result.entries.length ≤ read.entries.length + count := by
  induction count generalizing read pos with
  | zero =>
    obtain ⟨rfl, -⟩ := Prod.mk.inj (pure_eq_ok.mp ran)
    exact Nat.le_refl _
  | succ count ih =>
    obtain ⟨idx, _, -, ran⟩ := bind_eq_ok.mp ran
    obtain ⟨_, _, -, ran⟩ := bind_eq_ok.mp ran
    obtain ⟨value, _, -, ran⟩ := bind_eq_ok.mp ran
    have one := SortedMap.length_insertEntry_le idx value read.entries
    have rest := ih ran
    simp only [SortedMap.insert] at rest
    omega

theorem readEndpoint_fewRegs {entry : Byte × Endpoint} {pos pos' : Nat}
    (ran : readEndpoint buf pos = .ok (entry, pos')) :
    entry.2.initialRegs.entries.length < 256 := by
  obtain ⟨key, _, -, ran⟩ := bind_eq_ok.mp ran
  obtain ⟨argRegisters, _, -, ran⟩ := bind_eq_ok.mp ran
  obtain ⟨argMeta, _, -, ran⟩ := bind_eq_ok.mp ran
  obtain ⟨regCount, _, -, ran⟩ := bind_eq_ok.mp ran
  obtain ⟨entryPc, _, -, ran⟩ := bind_eq_ok.mp ran
  obtain ⟨initialRegs, _, regs, ran⟩ := bind_eq_ok.mp ran
  obtain ⟨rfl, -⟩ := Prod.mk.inj (pure_eq_ok.mp ran)
  have few := length_readRegs_le regs
  have byte := regCount.isLt
  simp only [SortedMap.empty, List.length_nil, Nat.zero_add] at few
  exact Nat.lt_of_le_of_lt few byte

theorem readEndpoints_fewRegs {count : Nat} {read result : SortedMap Byte Endpoint}
    {pos pos' : Nat} (ran : readEndpoints buf count read pos = .ok (result, pos'))
    (few : ∀ entry ∈ read.entries, entry.2.initialRegs.entries.length < 256) :
    ∀ entry ∈ result.entries, entry.2.initialRegs.entries.length < 256 := by
  induction count generalizing read pos with
  | zero =>
    obtain ⟨rfl, -⟩ := Prod.mk.inj (pure_eq_ok.mp ran)
    exact few
  | succ count ih =>
    obtain ⟨entry, _, first, ran⟩ := bind_eq_ok.mp ran
    obtain ⟨_, _, -, ran⟩ := bind_eq_ok.mp ran
    refine ih ran fun other member => ?_
    rcases (SortedMap.mem_insertEntry read.sorted).mp member with rfl | ⟨before, -⟩
    · exact readEndpoint_fewRegs first
    · exact few other before

theorem trimmedLen_readRegion_lt {len pages : BitVec 32} {data : List Byte} {pos pos' : Nat}
    (ran : readRegion buf len pages pos = .ok (data, pos')) : trimmedLen data < 2 ^ 32 := by
  obtain ⟨_, _, -, ran⟩ := bind_eq_ok.mp ran
  obtain ⟨bytes, _, taken, ran⟩ := bind_eq_ok.mp ran
  obtain ⟨rfl, -⟩ := Prod.mk.inj (pure_eq_ok.mp ran)
  obtain ⟨-, same⟩ := take_eq_ok.mp taken
  have short : bytes.length ≤ len.toNat := by
    rw [(Prod.mk.inj same).1]
    exact List.length_take_le _ _
  have trimmed := trimmedLen_append_zeros bytes (pages.toNat * pageSize - len.toNat)
  have bound := len.isLt
  omega

/-- What is read behind the page counts fits the format. -/
theorem of_readBody {regions : Regions} {blob : ProgramBlob} {pos pos' : Nat}
    (ran : readBody buf regions pos = .ok (blob, pos')) :
    blob.regions = regions ∧ blob.Encodable := by
  obtain ⟨codeLen, _, -, ran⟩ := bind_eq_ok.mp ran
  obtain ⟨roLen, _, -, ran⟩ := bind_eq_ok.mp ran
  obtain ⟨rwLen, _, -, ran⟩ := bind_eq_ok.mp ran
  obtain ⟨count, _, -, ran⟩ := bind_eq_ok.mp ran
  obtain ⟨endpoints, _, records, ran⟩ := bind_eq_ok.mp ran
  obtain ⟨code, _, -, ran⟩ := bind_eq_ok.mp ran
  obtain ⟨roData, _, ro, ran⟩ := bind_eq_ok.mp ran
  obtain ⟨rwData, _, rw', ran⟩ := bind_eq_ok.mp ran
  obtain ⟨rfl, -⟩ := Prod.mk.inj (pure_eq_ok.mp ran)
  exact ⟨rfl, readEndpoints_fewRegs records nofun, trimmedLen_readRegion_lt ro,
    trimmedLen_readRegion_lt rw'⟩

/-- Every blob that comes out of the reader fits the format. -/
theorem encodable_of_fromBytes {bytes : List Byte} {blob : ProgramBlob}
    (read : fromBytes bytes = .ok blob) : blob.Encodable := by
  obtain ⟨ran, -⟩ := fromBytes_eq_ok.mp read
  obtain ⟨_, _, -, ran⟩ := bind_eq_ok.mp ran
  obtain ⟨regions, _, -, ran⟩ := bind_eq_ok.mp ran
  exact (of_readBody ran).2

/-- A valid blob is read back from its encoding exactly when the format has room for it. -/
theorem fromBytes_toBytes_iff {blob : ProgramBlob} (valid : blob.validate = .ok ()) :
    fromBytes blob.toBytes = .ok blob ↔ blob.Encodable :=
  ⟨encodable_of_fromBytes, fromBytes_toBytes valid⟩

/-- Some code, a page of bytes in both regions that have some, and two endpoints, one of which sets
two registers. -/
def sampleBlob : ProgramBlob where
  code := [0x93, 0x02, 0x15, 0x00]
  regions := ⟨1, 1, 1, 2⟩
  roData := [1, 2, 3] ++ List.replicate 4093 0
  rwData := [0, 7] ++ List.replicate 4094 0
  endpoints := ⟨[(0, ⟨0, 0, 0, .empty⟩),
    (3, ⟨2, 1, 4, ⟨[(10, 7), (11, 0xFFFF)], by decide⟩⟩)], by decide⟩

theorem fromBytes_toBytes_sample :
    sampleBlob.validate = .ok () ∧ fromBytes sampleBlob.toBytes = .ok sampleBlob := by
  have ro : sampleBlob.roData.length = 4096 :=
    (List.length_append ..).trans (by rw [List.length_replicate]; rfl)
  have rw' : sampleBlob.rwData.length = 4096 :=
    (List.length_append ..).trans (by rw [List.length_replicate]; rfl)
  have valid : sampleBlob.validate = .ok () :=
    validate_eq_ok.mpr ⟨by decide, by decide, ro, rw', nofun⟩
  refine ⟨valid, (fromBytes_toBytes_iff valid).mpr ⟨by decide, ?_, ?_⟩⟩
  · exact Nat.lt_of_le_of_lt (trimmedLen_le _) (ro ▸ by decide)
  · exact Nat.lt_of_le_of_lt (trimmedLen_le _) (rw' ▸ by decide)

/-- No code, no data, and one endpoint with the given registers. -/
def bareBlob (initialRegs : SortedMap Byte (BitVec 64)) : ProgramBlob where
  code := []
  regions := ⟨0, 0, 0, 0⟩
  roData := []
  rwData := []
  endpoints := ⟨[(0, ⟨0, 0, 0, initialRegs⟩)], List.pairwise_singleton _ _⟩

/-- An override for each of the 256 register indices. -/
def everyReg : SortedMap Byte (BitVec 64) where
  entries := (List.range 256).map fun i => (BitVec.ofNat 8 i, 0)
  sorted := by
    refine List.pairwise_map.mpr (List.pairwise_lt_range.imp_of_mem fun {i j} _ later below => ?_)
    have room := List.mem_range.mp later
    rw [BitVec.lt_def, BitVec.toNat_ofNat, BitVec.toNat_ofNat]
    omega

/-- With 256 registers the count byte is zero, and their 4096 bytes are left over. -/
theorem fromBytes_toBytes_everyReg :
    (bareBlob everyReg).validate = .ok () ∧
      fromBytes (bareBlob everyReg).toBytes = .error (.trailingBytes 4096) := by
  decide +kernel

end Jar.ProgramBlob
