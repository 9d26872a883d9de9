import AmxJit.Compiler.Code

/-!
# Native functions compiled in place

`EmitIntrinsic` replaces a call of some well-known natives by asm of its own.  The arguments are on
the AMX stack, above their size.
-/

namespace AmxJit
open X86 Reg

/-- the `fpu` instructions with a register operand or none -/
def fpuReg (op : FpuOp) : Instr Cell Label := .fpu op (ptr esp 0)

/-- the value on the x87 stack goes to `eax` by way of the AMX stack -/
def fpuResult : Code :=
  [.sub esp (4 : Word), .fpu .fstp (ptr esp 0), .mov eax (ptr esp 0), .add esp (4 : Word)]

def float' : Code := .fpu .fild (ptr esp 4) :: fpuResult

def floatabs : Code := .fpu .fld (ptr esp 4) :: fpuReg .fabs :: fpuResult

/-- `floatadd`, `floatsub`, `floatmul`, `floatdiv` -/
def floatBinary (op : FpuOp) : Code := .fpu .fld (ptr esp 4) :: .fpu op (ptr esp 8) :: fpuResult

def floatadd : Code := floatBinary .fadd
def floatsub : Code := floatBinary .fsub
def floatmul : Code := floatBinary .fmul
def floatdiv : Code := floatBinary .fdiv

def floatsqroot : Code := .fpu .fld (ptr esp 4) :: fpuReg .fsqrt :: fpuResult

def floatcmp (cip : Word) : Buffer :=
  asm [.fpu .fld (ptr esp 8), .fpu .fld (ptr esp 4), fpuReg .fcompp, .fnstsw, .test8 .ah 0x44] ++
  emit (.jcc .p (.here cip 0)) ++ asm [.xor eax eax] ++ emit (.jmp (.here cip 2)) ++
  label (.here cip 0) ++ asm [.test8 .ah 0x01] ++ emit (.jcc .ne (.here cip 1)) ++
  asm [.mov eax (1 : Word)] ++ emit (.jmp (.here cip 2)) ++
  label (.here cip 1) ++ asm [.mov eax (-1 : Word)] ++
  label (.here cip 2)

def heapspace : Code :=
  [.mov edx amxPtrLabel, .mov edx (amxField edx .hea), .mov eax esp, .sub eax ebx, .sub eax edx]

def clamp (cip : Word) : Buffer :=
  asm [.mov edx (ptr esp 4), .mov eax (ptr esp 8), .cmp edx eax] ++
  emit (.jcc .le (.here cip 0)) ++
  asm [.mov eax (ptr esp 12), .cmp edx eax] ++ emit (.jcc .ge (.here cip 0)) ++
  asm [.mov eax edx] ++ label (.here cip 0)

def numargs : Code := [.mov eax (ptr ebp 8), .shr eax (.imm 2)]

/-- `min` and `max`: the first argument, unless the second beats it -/
def minMax (keep : Cond) (cip : Word) : Buffer :=
  asm [.mov eax (ptr esp 4), .mov edx (ptr esp 8), .cmp edx eax] ++
  emit (.jcc keep (.here cip 0)) ++ asm [.mov eax edx] ++ label (.here cip 0)

def min' (cip : Word) : Buffer := minMax .ge cip
def max' (cip : Word) : Buffer := minMax .le cip

def swapchars : Code :=
  [.mov eax (ptr esp 4), .xchg8 .ah .al, .ror eax (.imm 16), .xchg8 .ah .al]

/-- a name as the bytes that `strcmp` sees -/
def nameBytes (s : String) : List Byte := s.toList.map fun ch => BitVec.ofNat 8 ch.toNat

/-- the table `intrinsics` -/
def intrinsics (cip : Word) : List (String × Buffer) :=
  [("float", asm float'), ("floatabs", asm floatabs), ("floatadd", asm floatadd),
    ("floatsub", asm floatsub), ("floatmul", asm floatmul), ("floatdiv", asm floatdiv),
    ("floatsqroot", asm floatsqroot), ("floatcmp", floatcmp cip), ("clamp", clamp cip),
    ("heapspace", asm heapspace), ("numargs", asm numargs), ("min", min' cip),
    ("max", max' cip), ("swapchars", asm swapchars)]

/-- `EmitIntrinsic` for the native whose name is at the address `name` -/
def emitIntrinsic (r : AmxRef) (name cip : Word) : Option Buffer :=
  ((intrinsics cip).find? fun e => r.nameIs name (nameBytes e.1)).map Prod.snd

end AmxJit
