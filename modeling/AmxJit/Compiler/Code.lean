import AmxJit.X86.Asm
import AmxJit.Amx.Disasm

/-!
# The compiler's settings, labels and operands

What the emission functions of `CompilerImpl` share: the settings of a compiler object, the labels
its assembler binds, and the operands the emitted instructions are written with.

`Label.cip a` is the label `GetLabel(a)`; `Label.here a n` is the `n`-th label created while the
instruction at `a` is compiled.
-/

namespace X86
variable {C : Type}

instance : Coe Reg (Opnd C) := ⟨.reg⟩
instance : Coe Ptr (Opnd C) := ⟨.mem⟩
instance : Coe Word (Opnd C) := ⟨.imm⟩

end X86

namespace AmxJit
open X86

inductive Label where
  | ribStart | exec | execHelper | execExit | execContHelper | haltHelper | jumpHelper
  | jumpLookup | reverseJumpLookup | sysreqCHelper | sysreqDHelper
  | nullData | stackHeapOverflow | heapUnderflow | stackUnderflow | nativeNotFound
  | publicNotFound | afterCall | finish | return' | continueFromSleep
  | callReturn
  | haltSleep | haltExit
  | invalidAddress
  | sysreqCError | sysreqCSleepError
  | sysreqDError | sysreqDSleepError
  | cip (address : Word)
  | here (address : Word) (n : Nat)
  deriving DecidableEq

abbrev Code := List (Instr Cell Label)
abbrev Buffer := List (Item Cell Label)

/-- The settings of a compiler, and the addresses of the C functions and strings that the emitted
code refers to. -/
structure CompilerImpl where
  enableSysreqD : Bool
  enableSleep : Bool
  debugFlags : Word
  isDebuggerPresent : Bool
  opcodeTable : List Word
  getPublicAddress : Word
  getJITInstrPtr : Word
  getANXAddressByJITInstrPtr : Word
  puts : Word
  message : String → Word

def DEBUG_LOGGING : Word := 1
def DEBUG_BREAKPOINTS : Word := 2

/-! ## pieces of a buffer -/

/-- `asm_.bind(l)` -/
def label (l : Label) : Buffer := [.label l]

/-- a jump, a call or a return -/
def emit (i : Instr Cell Label) : Buffer := [.instr i]

/-- a straight line -/
abbrev asm (is : Code) : Buffer := code is

/-! ## operands -/

abbrev amxPtrLabel : Opnd Cell := .var (.rib .amx)
abbrev ebpLabel : Opnd Cell := .var (.rib .ebp)
abbrev espLabel : Opnd Cell := .var (.rib .esp)
abbrev amxEbpLabel : Opnd Cell := .var (.rib .amxEbp)
abbrev amxEspLabel : Opnd Cell := .var (.rib .amxEsp)
abbrev resetEbpLabel : Opnd Cell := .var (.rib .resetEbp)
abbrev resetEspLabel : Opnd Cell := .var (.rib .resetEsp)
abbrev resetStkLabel : Opnd Cell := .var (.rib .resetStk)
abbrev resetHeaLabel : Opnd Cell := .var (.rib .resetHea)

/-- `dword_ptr(r, offsetof(AMX, f))` -/
abbrev amxField (r : Reg) (f : AmxField) : Opnd Cell := .field r (.amx f)

/-- `dword_ptr(r, offsetof(AMX_HEADER, f))` -/
abbrev hdrField (r : Reg) (f : HdrField) : Opnd Cell := .field r (.hdr f)

variable (c : CompilerImpl)

open Reg in
def emitDebugPrint (message : String) : Code :=
  if c.debugFlags &&& DEBUG_LOGGING ≠ 0 then
    [.push eax, .push edx, .push ecx, .push (c.message message), .callAbs c.puts,
      .add esp (4 : Word), .pop ecx, .pop edx, .pop eax]
  else []

def emitDebugBreakpoint : Code :=
  if c.debugFlags &&& DEBUG_BREAKPOINTS ≠ 0 ∧ c.isDebuggerPresent then [.int3] else []

end AmxJit
