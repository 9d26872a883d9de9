import AmxJit.X86.State

/-!
# The AMX structure, its header and the runtime information block

The host structures that compiled code reads and writes, with the fields some modelled function
uses, and the names (`Cell`) under which the emitted instructions address them:
`Cell.rib f` by its label, `Cell.amx f` and `Cell.hdr f` as `[register + offsetof(..)]`.
-/

namespace AmxJit
open X86

/-- `struct tagAMX` -/
structure Amx where
  base : Word
  data : Word
  callback : Word
  cip : Word
  frm : Word
  hea : Word
  hlw : Word
  stk : Word
  stp : Word
  flags : Word
  error : Word
  paramcount : Word
  pri : Word
  alt : Word
  resetStk : Word
  resetHea : Word
  sysreqD : Word
  deriving DecidableEq

/-- `struct tagAMX_HEADER` -/
structure AmxHeader where
  defsize : BitVec 16
  cod : Word
  dat : Word
  hea : Word
  stp : Word
  cip : Word
  publics : Word
  natives : Word
  libraries : Word
  deriving DecidableEq

structure RuntimeInfoBlock where
  exec : Word
  amx : Word
  ebp : Word
  esp : Word
  amxEbp : Word
  amxEsp : Word
  resetEbp : Word
  resetEsp : Word
  resetStk : Word
  resetHea : Word
  instrTable : Word
  instrTableSize : Word
  deriving DecidableEq

/-! ## constants of amx.h -/

def AMX_ERR_NONE : Word := 0
def AMX_ERR_STACKERR : Word := 3
def AMX_ERR_BOUNDS : Word := 4
def AMX_ERR_STACKLOW : Word := 7
def AMX_ERR_HEAPLOW : Word := 8
def AMX_ERR_SLEEP : Word := 12
def AMX_ERR_NOTFOUND : Word := 19
def AMX_ERR_INDEX : Word := 20
def AMX_ERR_INIT_JIT : Word := 24

def AMX_FLAG_NTVREG : Word := 0x1000
def AMX_FLAG_BROWSE : Word := 0x4000

def AMX_EXEC_MAIN : Word := -1
def AMX_EXEC_CONT : Word := -2

/-! ## named cells -/

/-- the fields of the AMX structure that emitted code addresses -/
inductive AmxField where
  | base | data | callback | cip | frm | hea | hlw | stk | stp | flags | error | paramcount
  | pri | alt | resetStk | resetHea
  deriving DecidableEq

/-- the fields of the runtime information block that have a label -/
inductive RibField where
  | exec | amx | ebp | esp | amxEbp | amxEsp | resetEbp | resetEsp | resetStk | resetHea
  deriving DecidableEq

inductive HdrField where
  | cod | dat
  deriving DecidableEq

inductive Cell where
  | rib (f : RibField)
  | amx (f : AmxField)
  | hdr (f : HdrField)
  deriving DecidableEq

/-- The store behind the named cells.  `amxPtr` is the address of the AMX structure; the x87 unit
is an arbitrary function with an arbitrary state. -/
structure Vars where
  rib : RuntimeInfoBlock
  amx : Amx
  hdr : AmxHeader
  amxPtr : Word
  fpuStep : FpuOp → Word → Nat → Nat × Word
  fpuState : Nat

def Amx.get (a : Amx) : AmxField → Word
  | .base => a.base
  | .data => a.data
  | .callback => a.callback
  | .cip => a.cip
  | .frm => a.frm
  | .hea => a.hea
  | .hlw => a.hlw
  | .stk => a.stk
  | .stp => a.stp
  | .flags => a.flags
  | .error => a.error
  | .paramcount => a.paramcount
  | .pri => a.pri
  | .alt => a.alt
  | .resetStk => a.resetStk
  | .resetHea => a.resetHea

def Amx.set (a : Amx) (f : AmxField) (v : Word) : Amx :=
  match f with
  | .base => { a with base := v }
  | .data => { a with data := v }
  | .callback => { a with callback := v }
  | .cip => { a with cip := v }
  | .frm => { a with frm := v }
  | .hea => { a with hea := v }
  | .hlw => { a with hlw := v }
  | .stk => { a with stk := v }
  | .stp => { a with stp := v }
  | .flags => { a with flags := v }
  | .error => { a with error := v }
  | .paramcount => { a with paramcount := v }
  | .pri => { a with pri := v }
  | .alt => { a with alt := v }
  | .resetStk => { a with resetStk := v }
  | .resetHea => { a with resetHea := v }

def RuntimeInfoBlock.get (r : RuntimeInfoBlock) : RibField → Word
  | .exec => r.exec
  | .amx => r.amx
  | .ebp => r.ebp
  | .esp => r.esp
  | .amxEbp => r.amxEbp
  | .amxEsp => r.amxEsp
  | .resetEbp => r.resetEbp
  | .resetEsp => r.resetEsp
  | .resetStk => r.resetStk
  | .resetHea => r.resetHea

def RuntimeInfoBlock.set (r : RuntimeInfoBlock) (f : RibField) (v : Word) : RuntimeInfoBlock :=
  match f with
  | .exec => { r with exec := v }
  | .amx => { r with amx := v }
  | .ebp => { r with ebp := v }
  | .esp => { r with esp := v }
  | .amxEbp => { r with amxEbp := v }
  | .amxEsp => { r with amxEsp := v }
  | .resetEbp => { r with resetEbp := v }
  | .resetEsp => { r with resetEsp := v }
  | .resetStk => { r with resetStk := v }
  | .resetHea => { r with resetHea := v }

def AmxHeader.get (h : AmxHeader) : HdrField → Word
  | .cod => h.cod
  | .dat => h.dat

def AmxHeader.set (h : AmxHeader) (f : HdrField) (v : Word) : AmxHeader :=
  match f with
  | .cod => { h with cod := v }
  | .dat => { h with dat := v }

def Vars.get (v : Vars) : Cell → Word
  | .rib f => v.rib.get f
  | .amx f => v.amx.get f
  | .hdr f => v.hdr.get f

def Vars.set (v : Vars) (c : Cell) (w : Word) : Vars :=
  match c with
  | .rib f => { v with rib := v.rib.set f w }
  | .amx f => { v with amx := v.amx.set f w }
  | .hdr f => { v with hdr := v.hdr.set f w }

/-- the address of the structure a cell lies in (label cells have none) -/
def Vars.ptr (v : Vars) : Cell → Word
  | .rib _ => 0
  | .amx _ => v.amxPtr
  | .hdr _ => v.amx.base

instance : Cells Cell Vars where
  get c v := v.get c
  set c w v := v.set c w
  ptr c v := v.ptr c
  fpu op x v :=
    let r := v.fpuStep op x v.fpuState
    ({ v with fpuState := r.1 }, r.2)

/-- the machine that runs compiled code -/
abbrev Machine := State Vars

end AmxJit
