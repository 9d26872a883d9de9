import AmxJit.Compiler.Simulation
import AmxJit.Compiler.Table
import AmxJit.X86.Region

/-!
# The compiled code in its process

`Step env X` is one step of a process that runs compiled code:

* an instruction of the runtime or of the script;
* a C function that the runtime calls (`CCall`), as one step: it returns its value, and may change
  `eax`, `ecx`, `edx`, the flags, its arguments and the memory just below the stack pointer;
* the callback or a native (`HostCall`), as one step: it works on the memory and on the AMX structure
  and may run `Exec` again; `X` says what such a nested call does.  Functions obey cdecl.

`Env.level C n` is the relation in which nested calls go at most `n` deep and meet the condition `C`;
`Exec R u v` is a call of `Exec` from its entry `u` to the state `v` in which it has returned.

`Env` has what is known of the process: where the code, the AMX memory and the native stack are, and
where the functions.  Script instructions are restricted to runs in which the script writes to
AMX memory only and returns and jumps to code (`ScriptStep`).
-/

namespace AmxJit
open X86 Trans

/-- the addresses from `p` up to `top` -/
def upTo (top p : Word) : Set Word := bytes p (top - p).toNat

/-! ## C functions -/

/-- the C functions that emitted code calls by their address -/
inductive CFun where
  | getPublicAddress | getJITInstrPtr | getANXAddressByJITInstrPtr | puts
  deriving DecidableEq

def CompilerImpl.address (c : CompilerImpl) : CFun → Word
  | .getPublicAddress => c.getPublicAddress
  | .getJITInstrPtr => c.getJITInstrPtr
  | .getANXAddressByJITInstrPtr => c.getANXAddressByJITInstrPtr
  | .puts => c.puts

/-- the size of the return address and the arguments -/
def CFun.frame : CFun → Nat
  | .puts => 8
  | _ => 12

/-- the value of a C function for its first two arguments -/
def Jit.Value (jit : Jit) (x y v : Word) : CFun → Prop
  | .getPublicAddress => v = jit.amx.getPublicAddress y
  | .getJITInstrPtr => v = getJITInstrPtr jit.instrTable x
  | .getANXAddressByJITInstrPtr => v = getANXAddressByJITInstrPtr jit.instrTable x
  | .puts => True

/-! ## the process -/

namespace Jit
variable (jit : Jit)

/-- the end of the buffer, as an offset -/
def size : Nat := endOff jit.enc 0 jit.buffer.items

/-- the instructions of the runtime -/
def runtimeFetch : Word → Option (Instr Cell Label × Word) := jit.image.fetchBelow jit.scriptStart

/-- in the code of the AMX program, or at its end -/
def InScript (pc : Word) : Prop :=
  jit.scriptStart ≤ jit.image.offset pc ∧ jit.image.offset pc ≤ jit.size

def Outside (pc : Word) : Prop := jit.size < jit.image.offset pc

end Jit

structure Env where
  jit : Jit
  amxMem : Set Word
  /-- the native stack lies from `lo` up to `top` -/
  lo : Word
  top : Word
  /-- how far below the stack pointer a C function may write -/
  window : Nat
  window_le : window ≤ 2^20
  callback : Word
  natives : Set Word
  stack_sep : Disjoint amxMem (upTo top lo)
  cfun_outside : ∀ f, jit.Outside (jit.compiler.address f)
  cfun_inj : ∀ f g, jit.compiler.address f = jit.compiler.address g → f = g
  callback_outside : jit.Outside callback
  callback_ne : ∀ f, callback ≠ jit.compiler.address f
  natives_outside : ∀ a ∈ natives, jit.Outside a
  natives_ne : ∀ a ∈ natives, a ≠ callback ∧ ∀ f, a ≠ jit.compiler.address f
  null : jit.Outside 0 ∧ callback ≠ 0 ∧ 0 ∉ natives ∧ ∀ f, 0 ≠ jit.compiler.address f

namespace Env
variable (env : Env)

/-- an address of host code where no function begins -/
def HostAddr (a : Word) : Prop :=
  env.jit.Outside a ∧ a ≠ env.callback ∧ a ∉ env.natives ∧ ∀ f, a ≠ env.jit.compiler.address f

/-- `n` bytes of the native stack are free below `p` -/
def Room (p : Word) (n : Nat) : Prop :=
  n ≤ (p - env.lo).toNat ∧ (p - env.lo).toNat ≤ (env.top - env.lo).toNat

/-- how much of a stack the runtime and the functions it calls use at most -/
def need : Nat := env.window + 256

/-- the AMX stack has room for them at `p` -/
def AmxRoom (p : Word) : Prop := below p env.need ⊆ env.amxMem

structure CCall (f : CFun) (s t : Machine) : Prop where
  value : env.jit.Value (s.mem.read32 (s.esp + 4)) (s.mem.read32 (s.esp + 8)) t.eax f
  pc : t.pc = s.top
  esp : t.esp = s.esp + 4
  ebx : t.ebx = s.ebx
  ebp : t.ebp = s.ebp
  esi : t.esi = s.esi
  edi : t.edi = s.edi
  df : t.flags.df = s.flags.df
  vars : t.vars = s.vars
  mem : Set.EqOn t.mem s.mem (below (s.esp + BitVec.ofNat 32 f.frame) (env.window + f.frame))ᶜ

/-! ## Exec -/

/-- the data section: `amx->data`, or behind the header -/
def dataBase (v : Vars) : Word := if v.amx.data = 0 then v.amx.base + v.hdr.dat else v.amx.data

/-- A call of `Exec`, at its first instruction: `[esp]` is a return address in host code, `[esp + 4]`
and `[esp + 8]` are `index` and `retval`. -/
structure Entry (u : Machine) : Prop where
  pc : env.jit.image.addr .exec = some u.pc
  ret : env.HostAddr u.top
  ret_ne : u.top ≠ 0
  room : env.Room u.esp env.need
  args : 12 ≤ (env.top - u.esp).toNat
  retval : let r := u.mem.read32 (u.esp + 8)
    r = 0 ∨ Disjoint (bytes r 4) (below (u.esp + 12) (env.need + 12))
  amx : u.vars.rib.amx = u.vars.amxPtr
  callback : u.vars.amx.callback = env.callback
  stack : env.AmxRoom (dataBase u.vars + u.vars.amx.stk)

/-- a call of `Exec`, from its entry to the return -/
def Exec (R : Machine → Machine → Prop) (u v : Machine) : Prop :=
  Relation.ReflTransGen R u v ∧ v.pc = u.top

/-! ## the host -/

/-- work of a host function: it does not touch the runtime information block, the stack frames in
`keep`, and where the AMX has its data, its header and its callback -/
structure HostWork (keep : Set Word) (s t : Machine) : Prop where
  rib : t.vars.rib = s.vars.rib
  amxPtr : t.vars.amxPtr = s.vars.amxPtr
  hdr : t.vars.hdr = s.vars.hdr
  base : t.vars.amx.base = s.vars.amx.base
  data : t.vars.amx.data = s.vars.amx.data
  callback : t.vars.amx.callback = s.vars.amx.callback
  mem : Set.EqOn t.mem s.mem keep

/-- what a host function does: work and calls of `Exec`, whose frames and results are not in `keep` -/
inductive HostRun (X : Machine → Machine → Prop) (keep : Set Word) : Machine → Machine → Prop where
  | refl (s : Machine) : HostRun X keep s s
  | work {s t u : Machine} : HostRun X keep s t → HostWork keep t u → HostRun X keep s u
  | exec {s u v : Machine} : HostRun X keep s u → Entry env u → keep ⊆ upTo env.top (u.esp + 12) →
      (u.mem.read32 (u.esp + 8) = 0 ∨ Disjoint (bytes (u.mem.read32 (u.esp + 8)) 4) keep) →
      X u v → HostRun X keep s v

/-- A host function from its first instruction to the return.  It keeps the stack from
`esp + frame` on, where its return address and arguments end. -/
structure HostCall (X : Machine → Machine → Prop) (frame : Word) (s t : Machine) : Prop where
  run : HostRun env X (upTo env.top (s.esp + frame)) s t
  pc : t.pc = s.top
  esp : t.esp = s.esp + 4
  ebx : t.ebx = s.ebx
  ebp : t.ebp = s.ebp
  esi : t.esi = s.esi
  edi : t.edi = s.edi

/-- the helpers that the script calls -/
def scriptCalls : List Label :=
  [.haltHelper, .sysreqCHelper, .sysreqDHelper, .jumpHelper, .jumpLookup]

/-- the size of the return address and the argument of a helper -/
def helperArgs : Label → Word
  | .sysreqCHelper | .sysreqDHelper => 8
  | _ => 4

/-- An instruction of the script: it writes to AMX memory only, and leads on in the script, back to
the end of `ExecHelper`'s call, or to a helper that returns to the script, with room on the AMX
stack and, for a direct call, with the address of a native. -/
structure ScriptStep (s t : Machine) : Prop where
  mem : Set.EqOn t.mem s.mem env.amxMemᶜ
  pc : env.jit.InScript t.pc ∨ env.jit.image.addr .callReturn = some t.pc ∨
    ∃ l ∈ scriptCalls, env.jit.image.addr l = some t.pc
  call : ∀ l ∈ scriptCalls, env.jit.image.addr l = some t.pc →
    env.jit.InScript t.top ∧ env.AmxRoom (t.esp + helperArgs l)
  native : env.jit.image.addr .sysreqDHelper = some t.pc → t.mem.read32 (t.esp + 4) ∈ env.natives

inductive Step (X : Machine → Machine → Prop) (s t : Machine) : Prop where
  | runtime {i : Instr Cell Label} {n : Word} :
      env.jit.runtimeFetch s.pc = some (i, n) →
      step env.jit.image.addr i n s = some t → Step X s t
  | script {i : Instr Cell Label} {n : Word} : env.jit.InScript s.pc →
      env.jit.image.fetch s.pc = some (i, n) → step env.jit.image.addr i n s = some t →
      ScriptStep env s t → Step X s t
  | cfun (f : CFun) : s.pc = env.jit.compiler.address f → CCall env f s t → Step X s t
  | callback : s.pc = env.callback → HostCall env X 24 s t → Step X s t
  | native : s.pc ∈ env.natives → HostCall env X 12 s t → Step X s t

/-- calls of `Exec` nested at most `n` deep, each with the condition `C` at its entry -/
def level (C : Machine → Prop) : Nat → Machine → Machine → Prop
  | 0 => Step env fun _ _ => False
  | n + 1 => Step env fun u v => C u ∧ Exec (level C n) u v

end Env

end AmxJit
