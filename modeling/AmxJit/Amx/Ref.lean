import AmxJit.Amx.Opcode

/-!
# `AMXRef`: a loaded AMX as the compiler reads it

The header, the function tables and the code cells of an AMX at compile time.  `mem` is the host
memory that holds the image; the C `int` arithmetic on header fields wraps around.
-/

namespace AmxJit
open X86

structure AmxRef where
  amx : Amx
  header : AmxHeader
  mem : Mem

namespace AmxRef
variable (r : AmxRef)

def code : Word := r.amx.base + r.header.cod

def data : Word := if r.amx.data ≠ 0 then r.amx.data else r.amx.base + r.header.dat

/-- the code cell at `code() + address` -/
def codeCell (address : Word) : Word := r.mem.read32 (r.code + address)

/-- For `defsize = 0` the C++ division traps, and there is no number of records; here it is 0. -/
def numPublics : Int := (r.header.natives - r.header.publics).toInt.tdiv r.header.defsize.toInt

/-- as `numPublics` for `defsize = 0` -/
def numNatives : Int := (r.header.libraries - r.header.natives).toInt.tdiv r.header.defsize.toInt

/-- the address of `publics()[index]`, a record of two cells -/
def publicsAt (index : Word) : Word := r.header.publics + r.amx.base + 8 * index

def nativesAt (index : Word) : Word := r.header.natives + r.amx.base + 8 * index

def getPublicAddress (index : Word) : Word :=
  if index = AMX_EXEC_MAIN then
    if 0 < r.header.cip.toInt then r.header.cip else 0
  else if 0 ≤ index.toInt ∧ index.toInt < r.numPublics then r.mem.read32 (r.publicsAt index)
  else 0

def getNativeAddress (index : Word) : Word :=
  if 0 ≤ index.toInt ∧ index.toInt < r.numNatives then r.mem.read32 (r.nativesAt index) else 0

/-- a pointer to the name, 0 if there is no such native -/
def getNativeName (index : Word) : Word :=
  if 0 ≤ index.toInt ∧ index.toInt < r.numNatives then
    r.amx.base + r.mem.read32 (r.nativesAt index + 4)
  else 0

/-- the loop of `FindPublic` from `i`, `n` records to go -/
def findPublicFrom (address : Word) : Nat → Word → Word
  | 0, _ => -1
  | n + 1, i =>
    if r.mem.read32 (r.publicsAt i) = address then i else findPublicFrom address n (i + 1)

def findPublic (address : Word) : Word := r.findPublicFrom address r.numPublics.toNat 0

/-- the loop of `FindNative` from `i`, `n` records to go -/
def findNativeFrom (address : Word) : Nat → Word → Word
  | 0, _ => -1
  | n + 1, i =>
    if r.mem.read32 (r.nativesAt i) = address then i else findNativeFrom address n (i + 1)

def findNative (address : Word) : Word := r.findNativeFrom address r.numNatives.toNat 0

/-- `strcmp(s, name) == 0` for the string at the address `a` -/
def nameIs (a : Word) : List Byte → Bool
  | [] => r.mem a == 0
  | c :: cs => r.mem a == c && nameIs (a + 1) cs

/-- an AMX with the given code and 256 bytes of data, stack and heap, loaded at the address 0 -/
def ofCells (cells : List Word) : AmxRef where
  amx := ⟨0, 0, 0, 0, 256, 128, 0, 256, 256, AMX_FLAG_NTVREG, 0, 0, 0, 0, 0, 0, 0⟩
  header := ⟨8, 0, BitVec.ofNat 32 (4 * cells.length), 0, 256, 0, 0, 0, 0⟩
  mem := fun x => (cells.getD (x.toNat / 4) 0).extractLsb' (8 * (x.toNat % 4)) 8

end AmxRef

end AmxJit
