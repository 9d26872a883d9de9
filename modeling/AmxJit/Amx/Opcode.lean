import AmxJit.Amx.Basic

/-!
# Opcodes

`OpcodeID` lists the AMX opcodes in the order of opcode.h; `relocateOpcode` turns a code cell into
an opcode.  Builds that relocate opcodes find the cell in the interpreter's opcode table first.
-/

namespace AmxJit
open X86

inductive OpcodeID where
  | none | loadPri | loadAlt | loadSPri | loadSAlt | lrefPri | lrefAlt | lrefSPri | lrefSAlt
  | loadI | lodbI | constPri | constAlt | addrPri | addrAlt | storPri | storAlt | storSPri
  | storSAlt | srefPri | srefAlt | srefSPri | srefSAlt | storI | strbI | lidx | lidxB | idxaddr
  | idxaddrB | alignPri | alignAlt | lctrl | sctrl | movePri | moveAlt | xchg | pushPri
  | pushAlt | pushR | pushC | push | pushS | popPri | popAlt | stack | heap | proc | ret | retn
  | call | callPri | jump | jrel | jzer | jnz | jeq | jneq | jless | jleq | jgrtr | jgeq
  | jsless | jsleq | jsgrtr | jsgeq | shl | shr | sshr | shlCPri | shlCAlt | shrCPri | shrCAlt
  | smul | sdiv | sdivAlt | umul | udiv | udivAlt | add | sub | subAlt | and | or | xor | not
  | neg | invert | addC | smulC | zeroPri | zeroAlt | zero | zeroS | signPri | signAlt | eq
  | neq | less | leq | grtr | geq | sless | sleq | sgrtr | sgeq | eqCPri | eqCAlt | incPri
  | incAlt | inc | incS | incI | decPri | decAlt | dec | decS | decI | movs | cmps | fill
  | halt | bounds | sysreqPri | sysreqC | file | line | symbol | srange | jumpPri | switch
  | casetbl | swapPri | swapAlt | pushAdr | nop | sysreqD | symtag | brk
  deriving DecidableEq, Repr

def NUM_OPCODES : Nat := 138

/-- `FindOpcode`: the index of the cell in the opcode table, the cell itself if it is not there -/
def findOpcode (opcodeTable : List Word) (opcode : Word) : Word :=
  match opcodeTable.findIdx? (· == opcode) with
  | some i => BitVec.ofNat 32 i
  | none => opcode

/-- `RelocateOpcode`.  `opcodeTable` is empty in builds without relocation; a cell that is no
opcode number has no `OpcodeID`. -/
def relocateOpcode (opcodeTable : List Word) (opcode : Word) : Option OpcodeID :=
  let op := findOpcode (opcodeTable.take NUM_OPCODES) opcode
  if op.toNat < NUM_OPCODES then some (OpcodeID.ofNat op.toNat) else none

/-- how `DecodeInstruction` reads the operands of an opcode -/
inductive OperandKind where
  | one
  | zero
  | table
  deriving DecidableEq, Repr

def OpcodeID.operandKind : OpcodeID → Option OperandKind
  | .loadPri | .loadAlt | .loadSPri | .loadSAlt | .lrefPri | .lrefAlt | .lrefSPri | .lrefSAlt
  | .lodbI | .constPri | .constAlt | .addrPri | .addrAlt | .storPri | .storAlt | .storSPri
  | .storSAlt | .srefPri | .srefAlt | .srefSPri | .srefSAlt | .strbI | .lidxB | .idxaddrB
  | .alignPri | .alignAlt | .lctrl | .sctrl | .pushR | .pushC | .push | .pushS | .stack | .heap
  | .jrel | .jump | .jzer | .jnz | .jeq | .jneq | .jless | .jleq | .jgrtr | .jgeq | .jsless
  | .jsleq | .jsgrtr | .jsgeq | .shlCPri | .shlCAlt | .shrCPri | .shrCAlt | .addC | .smulC
  | .zero | .zeroS | .eqCPri | .eqCAlt | .inc | .incS | .dec | .decS | .movs | .cmps | .fill
  | .halt | .bounds | .call | .sysreqC | .pushAdr | .sysreqD | .switch => some .one
  | .loadI | .storI | .lidx | .idxaddr | .movePri | .moveAlt | .xchg | .pushPri | .pushAlt
  | .popPri | .popAlt | .proc | .ret | .retn | .callPri | .shl | .shr | .sshr | .smul | .sdiv
  | .sdivAlt | .umul | .udiv | .udivAlt | .add | .sub | .subAlt | .and | .or | .xor | .not
  | .neg | .invert | .zeroPri | .zeroAlt | .signPri | .signAlt | .eq | .neq | .less | .leq
  | .grtr | .geq | .sless | .sleq | .sgrtr | .sgeq | .incPri | .incAlt | .incI | .decPri
  | .decAlt | .decI | .sysreqPri | .jumpPri | .swapPri | .swapAlt | .nop | .brk => some .zero
  | .casetbl => some .table
  | _ => Option.none

end AmxJit
