import AmxJit.Amx.Ref

/-!
# The disassembler

`decodeInstruction` decodes the instruction at a code address; `Disassembler.decode` and
`Disassembler.decodeE` are the two overloads of `Disassembler::Decode`, as functions of the current
address.  `sweep` repeats the second overload from an address to the end of the code or to an error.

A `std::vector` of a 32-bit process holds fewer than `VECTOR_MAX` cells: a CASETBL with more
operands, or a case table with more records, makes `push_back` throw, so no code comes out.
-/

namespace AmxJit
open X86

/-- the largest number of cells a `std::vector` can hold (2 GiB), plus one -/
def VECTOR_MAX : Nat := 2^29

structure Instruction where
  address : Word
  opcode : OpcodeID
  operands : List Word
  deriving DecidableEq

namespace Instruction

/-- `size()`: opcode and operands, in bytes -/
def size (i : Instruction) : Nat := 4 * (1 + i.operands.length)

/-- `operand()`: the first operand -/
def operand (i : Instruction) : Word := i.operands.headD 0

/-- the address behind the instruction -/
def next (i : Instruction) : Word := i.address + BitVec.ofNat 32 i.size

end Instruction

/-- `n` code cells from `address` on -/
def readCells (r : AmxRef) (address : Word) : Nat → List Word
  | 0 => []
  | n + 1 => r.codeCell address :: readCells r (address + 4) n

theorem length_readCells (r : AmxRef) (address : Word) (n : Nat) :
    (readCells r address n).length = n := by
  induction n generalizing address with
  | zero => rfl
  | succ n ih => simp [readCells, ih]

theorem add_four_mul (address : Word) (n : Nat) : address + 4 + BitVec.ofNat 32 (4 * n) =
    address + BitVec.ofNat 32 (4 * (n + 1)) := by
  rw [show 4 * (n + 1) = 4 + 4 * n by omega, BitVec.ofNat_add, ← add_assoc]
  rfl

/-- the number of operands of the CASETBL whose record count is `count`: `num_cases * 2`, as an `int`
of 32 bits -/
def tableOperands (count : Word) : Nat := ((count + 1) * 2).toInt.toNat

variable (opcodeTable : List Word) (r : AmxRef)

/-- `DecodeInstruction`; it is `none` where that returns false, and where a `push_back` throws -/
def decodeInstruction (address : Word) : Option Instruction :=
  (relocateOpcode opcodeTable (r.codeCell address)).bind fun opcode =>
    match opcode.operandKind with
    | some .one => some ⟨address, opcode, readCells r (address + 4) 1⟩
    | some .zero => some ⟨address, opcode, []⟩
    | some .table =>
      let n := tableOperands (r.codeCell (address + 4))
      if n < VECTOR_MAX then some ⟨address, opcode, readCells r (address + 4) n⟩ else none
    | none => none

/-- the test `cur_address_ >= 0 && cod + cur_address_ < dat` of both overloads -/
def inCode (cur : Word) : Bool :=
  0 ≤ cur.toInt && r.header.cod.toInt + cur.toInt < r.header.dat.toInt

namespace Disassembler

/-- `Decode(instr)`: the instruction and the new current address -/
def decode (cur : Word) : Option (Instruction × Word) :=
  if inCode r cur then
    (decodeInstruction opcodeTable r cur).map fun i => (i, cur + BitVec.ofNat 32 i.size)
  else none

/-- `Decode(instr, error)`: the result, and the value it leaves in `error` -/
def decodeE (cur : Word) (error : Bool) : Option (Instruction × Word) × Bool :=
  if inCode r cur then
    match decodeInstruction opcodeTable r cur with
    | some i => (some (i, cur + BitVec.ofNat 32 i.size), false)
    | none => (none, true)
  else (none, error)

/-- the number of instructions `while (Decode(instr))` counts from `cur`, at most `fuel` -/
def count : Nat → Word → Nat
  | 0, _ => 0
  | fuel + 1, cur =>
    match decode opcodeTable r cur with
    | some (_, cur') => count fuel cur' + 1
    | none => 0

end Disassembler

/-- Enough rounds for a sweep: every instruction takes at least one of the code cells. -/
def sweepFuel : Nat := ((r.header.dat.toInt - r.header.cod.toInt).toNat + 3) / 4 + 1

/-- The instructions a sweep with `Decode(instr, error)` yields from `cur` on; `none` if it ends
with an error. -/
def sweep : Nat → Word → Option (List Instruction)
  | 0, _ => none
  | fuel + 1, cur =>
    match Disassembler.decodeE opcodeTable r cur false with
    | (some (i, cur'), _) => (sweep fuel cur').map (i :: ·)
    | (none, false) => some []
    | (none, true) => none

/-! ## case tables -/

structure CaseRecord where
  value : Word
  address : Word
  deriving DecidableEq

/-- records `i`, `i + 1`, .. of the table, `n` of them; addresses become relative to the code -/
def readRecords (table : Word) : Nat → Word → List CaseRecord
  | 0, _ => []
  | n + 1, i =>
    ⟨r.mem.read32 (table + 8 * i), r.mem.read32 (table + 8 * i + 4) - r.code⟩ ::
      readRecords table n (i + 1)

/-- `CaseTable(amx, offset)`: record 0 holds the default address; it is `none` where a `push_back` throws -/
def caseTable (offset : Word) : Option (List CaseRecord) :=
  let n := ((r.mem.read32 (offset + 4)).toInt + 1).toNat
  if 2 * n < VECTOR_MAX then some (readRecords r (offset + 4) n 0) else none

namespace CaseTable

def numCases (records : List CaseRecord) : Int := records.length - 1

def getCaseValue (records : List CaseRecord) (i : Nat) : Option Word :=
  records[i + 1]?.map CaseRecord.value

def getCaseAddress (records : List CaseRecord) (i : Nat) : Option Word :=
  records[i + 1]?.map CaseRecord.address

def getDefaultAddress (records : List CaseRecord) : Option Word :=
  records[0]?.map CaseRecord.address

/-- the search of `FindMinValue` and `FindMaxValue`: keep the first value that beats the kept one -/
def findBest (better : Word → Word → Bool) : Option Word → List CaseRecord → Option Word
  | best, [] => best
  | none, c :: cs => findBest better (some c.value) cs
  | some b, c :: cs => findBest better (some (if better c.value b then c.value else b)) cs

def findMinValue (records : List CaseRecord) : Option Word :=
  findBest (fun a b => a.slt b) none records.tail

def findMaxValue (records : List CaseRecord) : Option Word :=
  findBest (fun a b => b.slt a) none records.tail

end CaseTable

end AmxJit
