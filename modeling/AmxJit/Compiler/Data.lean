import AmxJit.Compiler.Code

/-!
# Code of the data opcodes

`dataCode op v next` is what the main switch of `CompilerImpl::Compile` emits for the opcodes whose
code is a straight line, `v` being the operand and `next` the address of the next instruction.
Opcodes with labels or calls have no `dataCode`.
-/

namespace AmxJit
open X86 Reg

/-- `asm_.mov(r, v)`, with `xor` for zero -/
def emitConst (r : Reg) (v : Word) : Code :=
  if v = 0 then [.xor r r] else [.mov r v]

/-- `add(d, v)`, written as a subtraction for a negative `v` -/
def emitAddC (d : Opnd Cell) (v : Word) : Code :=
  if 0 ≤ v.toInt then [.add d v] else [.sub d (-v : Word)]

def emitAlign (r : Reg) (v : Word) : Code :=
  if v.toNat < 4 then [.xor r (4 - v : Word)] else []

/-- `cmp(r, o)` and its truth value in `eax` -/
def emitSet (cond : Cond) (r : Reg) (o : Opnd Cell) : Code :=
  [.cmp r o, .setcc cond .al, .movzx8 eax .al]

def emitSdiv : Code :=
  [.cdq, .idiv ecx, .mov esi eax, .lea eax (ptrx edx ecx 0), .cdq, .idiv ecx, .mov ecx edx,
    .mov eax esi]

def emitUdiv : Code :=
  [.xor edx edx, .div ecx, .mov ecx edx]

def emitLodbI (v : Word) : Code :=
  if v = 1 then [.movzx8m eax (ptrx ebx eax 0)]
  else if v = 2 then [.movzx16m eax (ptrx ebx eax 0)]
  else if v = 4 then [.mov eax (ptrx ebx eax 0)]
  else []

def emitStrbI (v : Word) : Code :=
  if v = 1 then [.mov8 (ptrx ebx ecx 0) .al]
  else if v = 2 then [.mov16 (ptrx ebx ecx 0) eax]
  else if v = 4 then [.mov (ptrx ebx ecx 0) eax]
  else []

/-- the shift that the assembler packs into an operand: two bits of it -/
def indexShift (v : Word) : Nat := v.toNat % 4

def emitLctrl (v next : Word) : Code :=
  if v = 0 then
    [.mov eax amxPtrLabel, .mov eax (amxField eax .base), .mov eax (hdrField eax .cod)]
  else if v = 1 then
    [.mov eax amxPtrLabel, .mov eax (amxField eax .base), .mov eax (hdrField eax .dat)]
  else if v = 2 then [.mov eax amxPtrLabel, .mov eax (amxField eax .hea)]
  else if v = 3 then [.mov eax amxPtrLabel, .mov eax (amxField eax .stp)]
  else if v = 4 then [.mov eax esp, .sub eax ebx]
  else if v = 5 then [.mov eax ebp, .sub eax ebx]
  else if v = 6 then [.mov eax next]
  else if v = 7 then [.mov eax (1 : Word)]
  else []

def emitSctrl (v : Word) : Code :=
  if v = 2 then [.mov edx amxPtrLabel, .mov (amxField edx .hea) eax]
  else if v = 4 then [.lea esp (ptrx ebx eax 0)]
  else if v = 5 then [.lea ebp (ptrx ebx eax 0)]
  else []

/-- the number of elements and their width: double words, words or bytes -/
def emitMovs (numBytes : Word) : Code :=
  [.lea esi (ptrx ebx eax 0), .lea edi (ptrx ebx ecx 0), .push ecx] ++
  (if numBytes.srem 4 = 0 then [.mov ecx (numBytes.sdiv 4), .repMovs 4]
   else if numBytes.srem 2 = 0 then [.mov ecx (numBytes.sdiv 2), .repMovs 2]
   else [.mov ecx numBytes, .repMovs 1]) ++
  [.pop ecx]

/-- `sizeof(cell)` is unsigned, and so is the division -/
def emitFill (numBytes : Word) : Code :=
  [.lea edi (ptrx ebx ecx 0), .push ecx, .mov ecx (numBytes / 4 : Word), .repStosd, .pop ecx]

def dataCode (op : OpcodeID) (v next : Word) : Option Code :=
  match op with
  | .loadPri => some [.mov eax (ptr ebx v)]
  | .loadAlt => some [.mov ecx (ptr ebx v)]
  | .loadSPri => some [.mov eax (ptr ebp v)]
  | .loadSAlt => some [.mov ecx (ptr ebp v)]
  | .lrefPri => some [.mov edx (ptr ebx v), .mov eax (ptrx ebx edx 0)]
  | .lrefAlt => some [.mov edx (ptr ebx v), .mov ecx (ptrx ebx edx 0)]
  | .lrefSPri => some [.mov edx (ptr ebp v), .mov eax (ptrx ebx edx 0)]
  | .lrefSAlt => some [.mov edx (ptr ebp v), .mov ecx (ptrx ebx edx 0)]
  | .loadI => some [.mov eax (ptrx ebx eax 0)]
  | .lodbI => some (emitLodbI v)
  | .constPri => some (emitConst eax v)
  | .constAlt => some (emitConst ecx v)
  | .addrPri => some [.lea eax (ptr ebp v), .sub eax ebx]
  | .addrAlt => some [.lea ecx (ptr ebp v), .sub ecx ebx]
  | .storPri => some [.mov (ptr ebx v) eax]
  | .storAlt => some [.mov (ptr ebx v) ecx]
  | .storSPri => some [.mov (ptr ebp v) eax]
  | .storSAlt => some [.mov (ptr ebp v) ecx]
  | .srefPri => some [.mov edx (ptr ebx v), .mov (ptrx ebx edx 0) eax]
  | .srefAlt => some [.mov edx (ptr ebx v), .mov (ptrx ebx edx 0) ecx]
  | .srefSPri => some [.mov edx (ptr ebp v), .mov (ptrx ebx edx 0) eax]
  | .srefSAlt => some [.mov edx (ptr ebp v), .mov (ptrx ebx edx 0) ecx]
  | .storI => some [.mov (ptrx ebx ecx 0) eax]
  | .strbI => some (emitStrbI v)
  | .lidx => some [.lea edx (ptrx ebx ecx 0), .mov eax (ptrx edx eax 2)]
  | .lidxB => some [.lea edx (ptrx ebx ecx 0), .mov eax (ptrx edx eax (indexShift v))]
  | .idxaddr => some [.lea eax (ptrx ecx eax 2)]
  | .idxaddrB => some [.lea eax (ptrx ecx eax (indexShift v))]
  | .alignPri => some (emitAlign eax v)
  | .alignAlt => some (emitAlign ecx v)
  | .lctrl => if v = 8 then none else some (emitLctrl v next)
  | .sctrl => if v = 6 ∨ v = 8 then none else some (emitSctrl v)
  | .movePri => some [.mov eax ecx]
  | .moveAlt => some [.mov ecx eax]
  | .xchg => some [.xchg eax ecx]
  | .pushPri => some [.push eax]
  | .pushAlt => some [.push ecx]
  | .pushC => some [.push v]
  | .push => some [.push (ptr ebx v)]
  | .pushS => some [.push (ptr ebp v)]
  | .popPri => some [.pop eax]
  | .popAlt => some [.pop ecx]
  | .stack => some ([.mov ecx esp, .sub ecx ebx] ++ emitAddC esp v)
  | .heap => some ([.mov edx amxPtrLabel, .mov ecx (amxField edx .hea)] ++
      emitAddC (amxField edx .hea) v)
  | .shl => some [.shl eax .cl]
  | .shr => some [.shr eax .cl]
  | .sshr => some [.sar eax .cl]
  | .shlCPri => some [.shl eax (.imm (v.setWidth 8))]
  | .shlCAlt => some [.shl ecx (.imm (v.setWidth 8))]
  | .shrCPri => some [.shr eax (.imm (v.setWidth 8))]
  | .shrCAlt => some [.shr ecx (.imm (v.setWidth 8))]
  | .smul => some [.imul1 ecx]
  | .sdiv => some emitSdiv
  | .sdivAlt => some (.xchg eax ecx :: emitSdiv)
  | .umul => some [.mul ecx]
  | .udiv => some emitUdiv
  | .udivAlt => some (.xchg eax ecx :: emitUdiv)
  | .add => some [.add eax ecx]
  | .sub => some [.sub eax ecx]
  | .subAlt => some [.sub eax ecx, .neg eax]
  | .and => some [.and eax ecx]
  | .or => some [.or eax ecx]
  | .xor => some [.xor eax ecx]
  | .not => some [.test eax eax, .setcc .e .al, .movzx8 eax .al]
  | .neg => some [.neg eax]
  | .invert => some [.not eax]
  | .addC => some (emitAddC eax v)
  | .smulC => some [.imul eax eax v]
  | .zeroPri => some [.xor eax eax]
  | .zeroAlt => some [.xor ecx ecx]
  | .zero => some [.mov (ptr ebx v) (0 : Word)]
  | .zeroS => some [.mov (ptr ebp v) (0 : Word)]
  | .signPri => some [.movsx8 eax .al]
  | .signAlt => some [.movsx8 ecx .cl]
  | .eq => some (emitSet .e eax ecx)
  | .neq => some (emitSet .ne eax ecx)
  | .less => some (emitSet .b eax ecx)
  | .leq => some (emitSet .be eax ecx)
  | .grtr => some (emitSet .a eax ecx)
  | .geq => some (emitSet .ae eax ecx)
  | .sless => some (emitSet .l eax ecx)
  | .sleq => some (emitSet .le eax ecx)
  | .sgrtr => some (emitSet .g eax ecx)
  | .sgeq => some (emitSet .ge eax ecx)
  | .eqCPri => some (emitSet .e eax v)
  | .eqCAlt => some (emitSet .e ecx v)
  | .incPri => some [.inc eax]
  | .incAlt => some [.inc ecx]
  | .inc => some [.inc (ptr ebx v)]
  | .incS => some [.inc (ptr ebp v)]
  | .incI => some [.inc (ptrx ebx eax 0)]
  | .decPri => some [.dec eax]
  | .decAlt => some [.dec ecx]
  | .dec => some [.dec (ptr ebx v)]
  | .decS => some [.dec (ptr ebp v)]
  | .decI => some [.dec (ptrx ebx eax 0)]
  | .movs => some (emitMovs v)
  | .fill => some (emitFill v)
  | .swapPri => some [.xchg (ptr esp 0) eax]
  | .swapAlt => some [.xchg (ptr esp 0) ecx]
  | .pushAdr => some [.lea edx (ptr ebp v), .sub edx ebx, .push edx]
  | _ => none

end AmxJit
