import AmxJit.Compiler.Code

/-!
# The runtime: `Exec` and its helpers

The fixed part of every asm buffer, in the order in which `Compile` emits it.  Each function is a
list of named straight lines, one for each paragraph of the source, with its labels and jumps
between them.
-/

namespace AmxJit
open X86 Reg

variable (c : CompilerImpl)

/-- the size of `RuntimeInfoBlock` -/
def ribSize : Nat := 48

/-- the size of `InstrTableEntry` -/
def instrTableEntrySize : Nat := 8

def emitRuntimeInfo : Buffer := label .ribStart ++ [.data ribSize]

def emitInstrTable (numEntries : Nat) : Buffer := [.data (instrTableEntrySize * numEntries)]

/-! ## Exec

`[ebp + 8]` is `index`, `[ebp + 12]` is `retval`; the local variables `address`, `reset_ebp`,
`reset_esp`, `reset_stk` and `reset_hea` are at `ebp - 4` to `ebp - 20`. -/

/-- frame, local variables, `esi` = AMX, `ebx` = its data section or null -/
def execEnter : Code :=
  [.push ebp, .mov ebp esp, .sub esp (20 : Word), .push esi, .mov esi amxPtrLabel, .push ebx,
    .mov ebx (amxField esi .data), .test ebx ebx]

def execNullData : Code :=
  [.mov ebx (amxField esi .base), .mov eax (hdrField ebx .dat), .add ebx eax]

/-- `ecx := amx->f`, `edx := amx->g`, compare -/
def execCheck (f g : AmxField) : Code :=
  [.mov ecx (amxField esi f), .mov edx (amxField esi g), .cmp ecx edx]

def execCheckNatives : Code := [.mov ecx (amxField esi .flags), .test ecx AMX_FLAG_NTVREG]

def execResetError : Code := [.mov (amxField esi .error) AMX_ERR_NONE]

def execCheckCont : Code :=
  [.mov ecx (ptr ebp 8), .mov edx AMX_EXEC_CONT, .cmp ecx edx]

/-- the arguments of `GetPublicAddress(amx, index)` -/
def execPublicArgs : Code :=
  [.push (ptr ebp 8), .mov eax amxPtrLabel, .push eax]

def execTestPublic : Code := [.add esp (8 : Word), .test eax eax]

/-- the arguments of `GetJITInstrPtr(address, rib)` -/
def execStartArgs : Code := [.leaLabel ecx .ribStart, .push ecx, .push eax]

/-- `address` and the old `reset_*` go to the local variables, `address` becomes the argument -/
def execSaveReset : Code :=
  [.add esp (8 : Word), .mov (ptr ebp (-4)) eax,
    .mov eax resetEbpLabel, .mov (ptr ebp (-8)) eax,
    .mov eax resetEspLabel, .mov (ptr ebp (-12)) eax,
    .mov eax resetStkLabel, .mov (ptr ebp (-16)) eax,
    .mov eax resetHeaLabel, .mov (ptr ebp (-20)) eax,
    .push (ptr ebp (-4))]

def execTestRetval : Code := [.mov ecx (ptr ebp 12), .test ecx ecx]

def execStoreRetval : Code := [.mov (ptr ecx 0) eax]

/-- `reset_*` from the local variables, `eax` and `amx->error` exchanged -/
def execRestoreReset : Code :=
  [.mov eax (ptr ebp (-8)), .mov resetEbpLabel eax,
    .mov eax (ptr ebp (-12)), .mov resetEspLabel eax,
    .mov eax (ptr ebp (-16)), .mov resetStkLabel eax,
    .mov eax (ptr ebp (-20)), .mov resetHeaLabel eax,
    .mov eax AMX_ERR_NONE, .xchg eax (amxField esi .error)]

def execLeave : Code := [.pop ebx, .pop esi, .mov esp ebp, .pop ebp]

/-- an early return with an error code -/
def execReject (l : Label) (error : Word) : Buffer :=
  label l ++ asm [.mov eax error] ++ emit (.jmp .return')

def emitExec : Buffer :=
  label .exec ++ asm execEnter ++ emit (.jcc .ne .nullData) ++ asm execNullData ++
  label .nullData ++
  asm (execCheck .hea .stk) ++ emit (.jcc .ge .stackHeapOverflow) ++
  asm (execCheck .stk .stp) ++ emit (.jcc .g .stackUnderflow) ++
  asm (execCheck .hea .hlw) ++ emit (.jcc .l .heapUnderflow) ++
  asm execCheckNatives ++ emit (.jcc .e .nativeNotFound) ++
  asm execResetError ++
  (if c.enableSleep then asm execCheckCont ++ emit (.jcc .e .continueFromSleep) else []) ++
  asm execPublicArgs ++ emit (.callAbs c.getPublicAddress) ++
  asm execTestPublic ++ emit (.jcc .e .publicNotFound) ++
  asm execStartArgs ++ emit (.callAbs c.getJITInstrPtr) ++
  asm execSaveReset ++ emit (.call .execHelper) ++ asm [.add esp (4 : Word)] ++
  label .afterCall ++ asm execTestRetval ++ emit (.jcc .e .finish) ++
  asm execStoreRetval ++
  label .finish ++ asm execRestoreReset ++
  label .return' ++ asm execLeave ++ emit .ret ++
  execReject .stackHeapOverflow AMX_ERR_STACKERR ++
  execReject .heapUnderflow AMX_ERR_HEAPLOW ++
  execReject .stackUnderflow AMX_ERR_STACKLOW ++
  execReject .nativeNotFound AMX_ERR_NOTFOUND ++
  execReject .publicNotFound AMX_ERR_INDEX ++
  (if c.enableSleep then
    label .continueFromSleep ++ emit (.call .execContHelper) ++ emit (.jmp .afterCall)
  else [])

/-! ## ExecHelper -/

/-- the address to call -/
def execAddress : Code := [.mov eax (ptr esp 4)]

/-- callee-saved registers and the current stack pointers -/
def execHelperSave : Code :=
  [.push esi, .push edi, .push ebpLabel, .push espLabel, .push amxEbpLabel, .push amxEspLabel]

/-- `reset_hea`, `reset_stk`, the parameter size on the AMX stack -/
def execHelperParams : Code :=
  [.mov ecx amxPtrLabel, .mov edx (amxField ecx .hea), .mov resetHeaLabel edx,
    .mov esi (amxField ecx .paramcount), .imul esi esi 4,
    .mov edx (amxField ecx .stk), .lea edi (ptrx edx esi 0), .mov resetStkLabel edi,
    .sub edx (4 : Word), .mov (ptrx ebx edx 0) esi, .mov (amxField ecx .paramcount) (0 : Word)]

/-- the switch to the AMX stack -/
def execHelperSwitch : Code :=
  [.mov espLabel esp, .add edx ebx, .mov amxEspLabel edx, .mov esp edx,
    .mov ebpLabel ebp, .mov edx (amxField ecx .frm), .add edx ebx, .mov amxEbpLabel edx,
    .mov ebp edx]

def execHelperReset : Code :=
  [.lea ecx (ptr esp (-4)), .mov resetEspLabel ecx, .mov resetEbpLabel ebp]

/-- `edi` = `amx->error` -/
def callReturnError : Code := [.mov esi amxPtrLabel, .mov edi (amxField esi .error)]

/-- the AMX registers go to the AMX structure -/
def callReturnSync : Code :=
  [.mov (amxField esi .pri) eax, .mov (amxField esi .alt) ecx, .mov edx ebp, .sub edx ebx,
    .mov (amxField esi .frm) edx, .mov edx esp, .sub edx ebx, .mov (amxField esi .stk) edx]

/-- back to the native stack -/
def execExitSwitch : Code :=
  [.mov amxEbpLabel ebp, .mov ebp ebpLabel, .mov amxEspLabel esp, .mov esp espLabel,
    .pop amxEspLabel, .pop amxEbpLabel, .pop espLabel, .pop ebpLabel]

def emitExecHelper : Buffer :=
  label .execHelper ++ asm (emitDebugPrint c "ExecHelper()") ++
  asm (execAddress ++ execHelperSave ++ execHelperParams ++ execHelperSwitch ++
    execHelperReset) ++
  emit (.callReg .eax) ++
  label .callReturn ++ asm callReturnError ++
  (if c.enableSleep then asm [.cmp edi AMX_ERR_SLEEP] ++ emit (.jcc .ne .execExit) else []) ++
  asm callReturnSync ++
  label .execExit ++ asm execExitSwitch ++
  asm (emitDebugPrint c "ExecHelper: returned from entry point") ++
  asm [.pop edi, .pop esi] ++ emit .ret

/-! ## ExecContHelper -/

def execContSwitch : Code :=
  [.mov ecx amxPtrLabel, .mov ebpLabel ebp, .mov edx (amxField ecx .frm), .add edx ebx,
    .mov amxEbpLabel edx, .mov ebp edx, .mov espLabel esp, .mov edx (amxField ecx .stk),
    .add edx ebx, .mov amxEspLabel edx, .mov esp edx]

/-- `reset_stk` and `reset_hea` from the AMX structure, `eax` = `amx->cip` -/
def execContReset : Code :=
  [.mov eax (amxField esi .resetStk), .mov resetStkLabel eax,
    .mov eax (amxField esi .resetHea), .mov resetHeaLabel eax, .mov eax (amxField esi .cip)]

def execContRegs : Code :=
  [.mov edx eax, .mov eax (amxField esi .pri), .mov ecx (amxField esi .alt)]

def emitExecContHelper : Buffer :=
  label .execContHelper ++ asm (emitDebugPrint c "ExecContHelper()") ++
  asm (execAddress ++ execHelperSave ++ execContSwitch ++ execHelperReset ++
    execContReset) ++
  emit (.call .jumpLookup) ++ asm execContRegs ++ emit (.jmpReg .edx)

/-! ## HaltHelper -/

/-- `amx->error` and the AMX registers; the return address goes to `ecx` -/
def haltSync : Code :=
  [.mov esi amxPtrLabel, .mov (amxField esi .error) edi, .mov (amxField esi .pri) eax,
    .mov (amxField esi .alt) ecx, .pop ecx, .mov edx ebp, .sub edx ebx,
    .mov (amxField esi .frm) edx, .mov edx esp, .sub edx ebx, .mov (amxField esi .stk) edx]

def haltReset : Code := [.mov esp resetEspLabel, .mov ebp resetEbpLabel]

def haltSaveCip : Code :=
  [.mov (amxField esi .cip) eax, .mov edx resetStkLabel, .mov (amxField esi .resetStk) edx,
    .mov edx resetHeaLabel, .mov (amxField esi .resetHea) edx]

def emitHaltHelper : Buffer :=
  label .haltHelper ++ asm (emitDebugPrint c "HaltHelper()") ++ asm haltSync ++
  (if c.enableSleep then asm [.cmp edi AMX_ERR_SLEEP] ++ emit (.jcc .e .haltSleep) else []) ++
  label .haltExit ++ asm haltReset ++ emit (.jmp .execExit) ++
  (if c.enableSleep then
    label .haltSleep ++ asm [.mov eax ecx] ++ emit (.call .reverseJumpLookup) ++
    asm haltSaveCip ++ emit (.jmp .haltExit)
  else [])

/-! ## address lookups and indirect jumps -/

def lookupArgs : Code :=
  [.push ecx, .push edx, .leaLabel ecx .ribStart, .push ecx, .push eax]

def lookupLeave : Code := [.add esp (8 : Word), .pop edx, .pop ecx]

/-- `JumpLookup` and `ReverseJumpLookup`: a call of the C function `f` that keeps `ecx` and `edx` -/
def emitLookup (l : Label) (f : Word) : Buffer :=
  label l ++ asm lookupArgs ++ emit (.callAbs f) ++ asm lookupLeave ++ emit .ret

def emitJumpLookup : Buffer := emitLookup .jumpLookup c.getJITInstrPtr

def emitReverseJumpLookup : Buffer := emitLookup .reverseJumpLookup c.getANXAddressByJITInstrPtr

def emitJumpHelper : Buffer :=
  label .jumpHelper ++ asm [.push eax] ++ emit (.call .jumpLookup) ++
  asm [.mov edx eax, .pop eax, .test edx edx] ++ emit (.jcc .e .invalidAddress) ++
  asm [.lea esp (ptr esp 4)] ++ emit (.jmpReg .edx) ++
  label .invalidAddress ++ emit .ret

/-! ## native calls -/

/-- `esi` = return address, `eax` = index or address, `edi` = params -/
def sysreqArgs : Code := [.pop esi, .pop eax, .lea edi (ptr esp 0)]

/-- `amx->frm`, `amx->stk`; the switch to the native stack, AMX stack pointers and ALT pushed -/
def sysreqSwitch : Code :=
  [.mov amxEbpLabel ebp, .sub ebp ebx, .mov (amxField edx .frm) ebp, .mov ebp ebpLabel,
    .mov amxEspLabel esp, .sub esp ebx, .mov (amxField edx .stk) esp, .mov esp espLabel,
    .push amxEspLabel, .push amxEbpLabel, .push ecx]

/-- ALT, and back to the AMX stack -/
def sysreqBack : Code := [.pop ecx, .pop edx, .mov ebp edx, .pop edx, .mov esp edx]

/-- `amx->pri`, `amx->alt`, `amx->reset_stk`, `amx->reset_hea` -/
def sysreqSleep : Code :=
  [.mov edx amxPtrLabel, .mov (amxField edx .pri) eax, .mov (amxField edx .alt) ecx,
    .mov ecx resetStkLabel, .mov (amxField edx .resetStk) ecx,
    .mov ecx resetHeaLabel, .mov (amxField edx .resetHea) ecx]

/-- the common beginning of both helpers, up to the native stack -/
def sysreqEnter (l : Label) (name : String) : Buffer :=
  label l ++ asm (emitDebugPrint c name) ++ asm [.mov edx amxPtrLabel] ++
  (if c.enableSleep then
    asm [.mov eax (ptr esp 0)] ++ emit (.call .reverseJumpLookup) ++
    asm [.mov (amxField edx .cip) eax]
  else []) ++
  asm (sysreqArgs ++ sysreqSwitch)

/-- the common end of both helpers; `edi` is the error -/
def sysreqLeave (error sleepError : Label) : Buffer :=
  (if c.enableSleep then asm [.cmp edi AMX_ERR_SLEEP] ++ emit (.jcc .e sleepError) else []) ++
  asm [.cmp edi AMX_ERR_NONE] ++ emit (.jcc .ne error) ++
  asm [.push esi] ++ emit .ret ++
  label error ++ emit (.call .haltHelper) ++
  (if c.enableSleep then
    label sleepError ++ asm (emitDebugPrint c "AMX_ERR_SLEEP" ++ sysreqSleep) ++
    emit (.jmp .execExit)
  else [])

/-- the arguments of `amx->callback(amx, index, result, params)` -/
def sysreqCArgs : Code :=
  [.push (0 : Word), .mov ecx esp, .push edi, .push ecx, .push eax, .push edx]

/-- `edi` = error, `eax` = `*result` -/
def sysreqCResult : Code := [.mov edi eax, .mov eax (ptr ecx 0), .add esp (20 : Word)]

def emitSysreqCHelper : Buffer :=
  sysreqEnter c .sysreqCHelper "sysreq.c" ++
  asm sysreqCArgs ++ emit (.callOp (amxField edx .callback)) ++
  asm (sysreqCResult ++ sysreqBack) ++
  sysreqLeave c .sysreqCError .sysreqCSleepError

/-- the arguments of `native(amx, params)` -/
def sysreqDArgs : Code := [.push edi, .push edx]

def sysreqDResult : Code := [.add esp (8 : Word)]

/-- `edi` = `amx->error` -/
def sysreqDLoadError : Code := [.mov edx amxPtrLabel, .mov edi (amxField edx .error)]

def emitSysreqDHelper : Buffer :=
  sysreqEnter c .sysreqDHelper "sysreq.d" ++
  asm sysreqDArgs ++ emit (.callReg .eax) ++
  asm (sysreqDResult ++ sysreqBack ++ sysreqDLoadError) ++
  sysreqLeave c .sysreqDError .sysreqDSleepError

/-- the fixed part of the buffer, in the order of `Compile` -/
def emitRuntime (numEntries : Nat) : Buffer :=
  emitRuntimeInfo ++ emitInstrTable numEntries ++ emitExec c ++ emitExecHelper c ++
  (if c.enableSleep then emitExecContHelper c else []) ++
  emitHaltHelper c ++ emitJumpLookup c ++ emitReverseJumpLookup c ++ emitJumpHelper ++
  emitSysreqCHelper c ++ emitSysreqDHelper c

end AmxJit
