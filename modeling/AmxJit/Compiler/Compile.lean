import AmxJit.Compiler.Data
import AmxJit.Compiler.Helpers
import AmxJit.Compiler.Intrinsics

/-!
# `CompilerImpl::Compile`

`compileInstr` is the main switch, `compileLoop` the loop around it, `compile` the whole function up
to the finished buffer.  The instruction map `instr_map_` is an association list in the order of the
signed addresses, as `std::map` keeps it.

A result `none` stands for every way in which no usable code comes out: an error, or a case table
without a default record.
-/

namespace AmxJit
open X86 Reg

/-! ## opcodes with jumps, labels and calls -/

def emitProc : Code := [.push ebp, .mov ebp esp, .sub (ptr esp 0) ebx]

def emitRet : Buffer := asm [.pop ebp, .add ebp ebx] ++ emit .ret

/-- the return address goes below the parameters, `amx->stk` is kept in step -/
def retnCode : Code :=
  [.pop ebp, .add ebp ebx, .pop edx, .add esp (ptr esp 0), .add esp (4 : Word),
    .mov esi amxPtrLabel, .mov edi esp, .sub edi ebx, .mov (amxField esi .stk) edi, .push edx]

def emitRetn : Buffer := asm retnCode ++ emit .ret

def emitJzer (dest : Word) : Buffer := asm [.test eax eax] ++ emit (.jcc .e (.cip dest))

def emitJnz (dest : Word) : Buffer := asm [.test eax eax] ++ emit (.jcc .ne (.cip dest))

/-- the jumps that compare PRI with ALT -/
def emitJcc (cond : Cond) (dest : Word) : Buffer :=
  asm [.cmp eax ecx] ++ emit (.jcc cond (.cip dest))

def emitCmps (cip numBytes : Word) : Buffer :=
  asm [.lea edi (ptrx ebx eax 0), .lea esi (ptrx ebx ecx 0), .push ecx, .mov ecx numBytes,
    .repeCmpsb, .pop ecx] ++
  emit (.jcc .a (.here cip 0)) ++ emit (.jcc .b (.here cip 1)) ++ emit (.jcc .e (.here cip 2)) ++
  label (.here cip 0) ++ asm [.mov eax (1 : Word)] ++ emit (.jmp (.here cip 3)) ++
  label (.here cip 1) ++ asm [.mov eax (-1 : Word)] ++ emit (.jmp (.here cip 3)) ++
  label (.here cip 2) ++ asm [.xor eax eax] ++
  label (.here cip 3)

def emitHalt (error : Word) : Buffer := asm [.mov edi error] ++ emit (.call .haltHelper)

variable (c : CompilerImpl)

def emitBounds (cip value : Word) : Buffer :=
  asm [.cmp eax value] ++ emit (.jcc .g (.here cip 0)) ++
  asm [.test eax eax] ++ emit (.jcc .l (.here cip 0)) ++ emit (.jmp (.here cip 1)) ++
  label (.here cip 0) ++ asm (emitDebugBreakpoint c) ++ emitHalt AMX_ERR_BOUNDS ++
  label (.here cip 1)

variable (r : AmxRef)

def emitSysreqC (cip index : Word) : Option Buffer :=
  let name := r.getNativeName index
  if name = 0 then none
  else match emitIntrinsic r name cip with
    | some b => some b
    | none =>
      let address := r.getNativeAddress index
      if r.amx.sysreqD ≠ 0 ∧ c.enableSysreqD ∧ address ≠ 0 then
        some (asm [.push address] ++ emit (.call .sysreqDHelper))
      else some (asm [.push index] ++ emit (.call .sysreqCHelper))

def emitSysreqD (cip address : Word) : Option Buffer :=
  let name := r.getNativeName (r.findNative address)
  if name = 0 then none
  else match emitIntrinsic r name cip with
    | some b => some b
    | none => some (asm [.push address] ++ emit (.call .sysreqDHelper))

def emitCase (record : CaseRecord) : Buffer :=
  asm [.cmp eax record.value] ++ emit (.jcc .e (.cip record.address))

/-- the range check and the comparisons with the case values -/
def emitCases (records : List CaseRecord) (default : Word) : Buffer :=
  match CaseTable.findMinValue records, CaseTable.findMaxValue records with
  | some minValue, some maxValue =>
    asm [.cmp eax minValue] ++ emit (.jcc .l (.cip default)) ++
    asm [.cmp eax maxValue] ++ emit (.jcc .g (.cip default)) ++
    records.tail.flatMap emitCase
  | _, _ => []

def emitSwitch (records : List CaseRecord) : Option Buffer :=
  (CaseTable.getDefaultAddress records).map fun default =>
    emitCases records default ++ emit (.jmp (.cip default))

/-- the jump opcodes that compare PRI with ALT -/
def OpcodeID.jumpCond : OpcodeID → Option Cond
  | .jeq => some .e
  | .jneq => some .ne
  | .jless => some .b
  | .jleq => some .be
  | .jgrtr => some .a
  | .jgeq => some .ae
  | .jsless => some .l
  | .jsleq => some .le
  | .jsgrtr => some .g
  | .jsgeq => some .ge
  | _ => Option.none

/-- the opcodes that have no `dataCode` -/
def controlCode (i : Instruction) : Option Buffer :=
  let dest := i.operand - r.code
  match i.opcode.jumpCond with
  | some cond => some (emitJcc cond dest)
  | none =>
    match i.opcode with
    | .lctrl => some (emit (.call .jumpLookup))
    | .sctrl =>
      if i.operand = 6 then some (emit (.call .jumpHelper)) else some (emit (.jmpReg eax))
    | .proc => some (asm emitProc)
    | .ret => some emitRet
    | .retn => some emitRetn
    | .jumpPri => some (emit (.call .jumpHelper))
    | .call => some (emit (.call (.cip dest)))
    | .jump => some (emit (.jmp (.cip dest)))
    | .jzer => some (emitJzer dest)
    | .jnz => some (emitJnz dest)
    | .cmps => some (emitCmps i.address i.operand)
    | .halt => some (emitHalt i.operand)
    | .bounds => some (emitBounds c i.address i.operand)
    | .sysreqPri => some (asm [.push eax] ++ emit (.call .sysreqCHelper))
    | .sysreqC => emitSysreqC c r i.address i.operand
    | .sysreqD => emitSysreqD r i.address i.operand
    | .switch => (caseTable r i.operand).bind emitSwitch
    | .casetbl => some []
    | .nop => some []
    | .brk => some (asm (emitDebugBreakpoint c))
    | _ => none

/-- the main switch -/
def compileInstr (i : Instruction) : Option Buffer :=
  match dataCode i.opcode i.operand i.next with
  | some is => some (asm is)
  | none => controlCode c r i

/-! ## the loop -/

/-- `instr_map_[address] = offset` -/
def mapInsert (address : Word) (offset : Nat) : List (Word × Nat) → List (Word × Nat)
  | [] => [(address, offset)]
  | e :: m =>
    if address.slt e.1 then (address, offset) :: e :: m
    else if address = e.1 then (address, offset) :: m
    else e :: mapInsert address offset m

/-- alignment of functions, and the label of the instruction -/
def instrLabel (i : Instruction) : Buffer :=
  (if i.opcode = .proc then [.align 16] else []) ++ label (.cip i.address)

variable (enc : Nat → Instr Cell Label → Nat)

/-- The loop over the decoded instructions: `buf` has been emitted and `map` is `instr_map_`. -/
def compileLoop : List Instruction → Buffer → List (Word × Nat) →
    Option (Buffer × List (Word × Nat))
  | [], buf, map => some (buf, map)
  | i :: is, buf, map =>
    let start := buf ++ instrLabel i
    (compileInstr c r i).bind fun b =>
      compileLoop is (start ++ b) (mapInsert i.address (endOff enc 0 start) map)

structure CodeBuffer where
  numEntries : Nat
  items : Buffer
  instrMap : List (Word × Nat)

/-- `Compile`; the table is sized by a disassembly pass of its own -/
def compile : Option CodeBuffer :=
  let numEntries := Disassembler.count c.opcodeTable r (sweepFuel r) 0
  (sweep c.opcodeTable r (sweepFuel r) 0).bind fun is =>
    (compileLoop c r enc is (emitRuntime c numEntries) []).map fun res =>
      ⟨numEntries, res.1, res.2⟩

end AmxJit
