import Jar.Program.Blob
import Jar.Lib.Cursor
import Jar.Lib.LittleEndian

/-! The binary encoding of program blobs. -/

namespace Jar.ProgramBlob

open scoped Word

def magic : List Byte := [0x4E, 0x55, 0x42, 0x50]

def version : Nat := 1

/-- Why bytes do not decode to a blob. -/
inductive DecodeError where
  | badMagic
  | unsupportedVersion (version : Nat)
  | reservedFlags (flags : Nat)
  | truncated (need available : Nat)
  | duplicateEndpoint (key : Byte)
  | regionOverflow (len capacity : Nat)
  | trailingBytes (count : Nat)
  | invalid (reason : InvalidProgram)
  deriving DecidableEq, Repr

def trimmedLen (data : List Byte) : Nat := (data.reverse.dropWhile (· = 0)).length

/-! ## Writing -/

/-- One register override: the index, seven bytes of padding, the value. -/
def regBytes (reg : Byte × BitVec 64) : List Byte :=
  [reg.1] ++ (List.replicate 7 0 ++ LittleEndian.encode 8 reg.2.toNat)

/-- One endpoint record; the count of its registers is cut off to a byte. -/
def endpointBytes (entry : Byte × Endpoint) : List Byte :=
  [entry.1] ++ ([entry.2.argRegisters] ++ ([entry.2.argMeta] ++
    ([BitVec.ofNat 8 entry.2.initialRegs.entries.length] ++
      (LittleEndian.encode 8 entry.2.entryPc.toNat ++
        entry.2.initialRegs.entries.flatMap regBytes))))

/-- The four page counts. -/
def regionBytes (regions : Regions) : List Byte :=
  regions.counts.flatMap fun count => LittleEndian.encode 4 count.2.toNat

/-- The lengths of the blob's parts, each cut off to 32 bits. -/
def lengthBytes (blob : ProgramBlob) : List Byte :=
  [blob.code.length, trimmedLen blob.roData, trimmedLen blob.rwData,
    blob.endpoints.entries.length].flatMap (LittleEndian.encode 4)

def toBytes (blob : ProgramBlob) : List Byte :=
  magic ++ (LittleEndian.encode 2 version ++ (LittleEndian.encode 2 0 ++
    (regionBytes blob.regions ++ (blob.lengthBytes ++
      (blob.endpoints.entries.flatMap endpointBytes ++ (blob.code ++
        (blob.roData.take (trimmedLen blob.roData) ++
          blob.rwData.take (trimmedLen blob.rwData))))))))

/-! ## Reading -/

/-- A cursor over the encoded bytes. -/
abbrev Reader := Cursor DecodeError

/-- The next bytes. The sum with the position fits a machine word: the position is in the buffer
and every count read from it is below `2 ^ 32`. -/
def take (buf : List Byte) (n : Nat) : Reader (List Byte) := Cursor.take .truncated buf n

def readUint (buf : List Byte) (width : Nat) : Reader Nat := LittleEndian.decode <$> take buf width

def readU8 (buf : List Byte) : Reader Byte := BitVec.ofNat 8 <$> readUint buf 1

def readU32 (buf : List Byte) : Reader (BitVec 32) := BitVec.ofNat 32 <$> readUint buf 4

def readU64 (buf : List Byte) : Reader (BitVec 64) := BitVec.ofNat 64 <$> readUint buf 8

/-- The register overrides of one endpoint; a repeated index overwrites. -/
def readRegs (buf : List Byte) :
    Nat → SortedMap Byte (BitVec 64) → Reader (SortedMap Byte (BitVec 64))
  | 0, initialRegs => pure initialRegs
  | count + 1, initialRegs => do
    let idx ← readU8 buf
    let _pad ← take buf 7
    let value ← readU64 buf
    readRegs buf count (initialRegs.insert idx value)

def readEndpoint (buf : List Byte) : Reader (Byte × Endpoint) := do
  let key ← readU8 buf
  let argRegisters ← readU8 buf
  let argMeta ← readU8 buf
  let regCount ← readU8 buf
  let entryPc ← readU64 buf
  let initialRegs ← readRegs buf regCount.toNat .empty
  return (key, ⟨entryPc, argRegisters, argMeta, initialRegs⟩)

/-- The endpoint records; a repeated key is an error. -/
def readEndpoints (buf : List Byte) :
    Nat → SortedMap Byte Endpoint → Reader (SortedMap Byte Endpoint)
  | 0, endpoints => pure endpoints
  | count + 1, endpoints => do
    let (key, endpoint) ← readEndpoint buf
    Cursor.ensure (endpoints.lookup key).isNone (.duplicateEndpoint key)
    readEndpoints buf count (endpoints.insert key endpoint)

/-- A region's bytes, extended with zeros to its pages. -/
def readRegion (buf : List Byte) (len pages : BitVec 32) : Reader (List Byte) := do
  let capacity := pages.toNat * pageSize
  Cursor.ensure (len.toNat ≤ capacity) (.regionOverflow len.toNat capacity)
  let data ← take buf len.toNat
  return data ++ List.replicate (capacity - len.toNat) 0

/-- The four page counts. -/
def readRegions (buf : List Byte) : Reader Regions := do
  let stackPages ← readU32 buf
  let roPages ← readU32 buf
  let rwPages ← readU32 buf
  let heapPages ← readU32 buf
  return ⟨stackPages, roPages, rwPages, heapPages⟩

/-- Magic, version and flags. -/
def readPreamble (buf : List Byte) : Reader Unit := do
  let found ← take buf 4
  Cursor.ensure (found = magic) .badMagic
  let found ← readUint buf 2
  Cursor.ensure (found = version) (.unsupportedVersion found)
  let flags ← readUint buf 2
  Cursor.ensure (flags = 0) (.reservedFlags flags)

/-- Everything behind the page counts. -/
def readBody (buf : List Byte) (regions : Regions) : Reader ProgramBlob := do
  let codeLen ← readU32 buf
  let roLen ← readU32 buf
  let rwLen ← readU32 buf
  let endpointCount ← readU32 buf
  let endpoints ← readEndpoints buf endpointCount.toNat .empty
  let code ← take buf codeLen.toNat
  let roData ← readRegion buf roLen regions.roPages
  let rwData ← readRegion buf rwLen regions.rwPages
  return ⟨code, regions, roData, rwData, endpoints⟩

def readBlob (buf : List Byte) : Reader ProgramBlob := do
  readPreamble buf
  let regions ← readRegions buf
  readBody buf regions

/-- Decode a whole file: nothing may follow the last field. -/
def fromBytes (bytes : List Byte) : Except DecodeError ProgramBlob :=
  match readBlob bytes 0 with
  | .error e => .error e
  | .ok (blob, pos) =>
    if pos ≠ bytes.length then .error (.trailingBytes (bytes.length - pos))
    else match blob.validate with
      | .error reason => .error (.invalid reason)
      | .ok () => .ok blob

end Jar.ProgramBlob
