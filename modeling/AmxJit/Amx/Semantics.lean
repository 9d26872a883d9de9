import AmxJit.Amx.Disasm

/-!
# The abstract machine: data opcodes

`AmxState` is the state of the AMX: the registers PRI, ALT, FRM, STK, HEA and the data memory with
addresses relative to the data section.  `dataStep` gives the data opcodes their meaning, as the
comments in the main switch of the compiler state it; `v` is the operand.

`DataDomain` are the data opcodes and the cases in which their meaning is defined: divisors are not
zero, block sizes not negative, sizes, shifts and register numbers those of the opcode.
-/

namespace AmxJit
open X86

structure AmxState where
  pri : Word
  alt : Word
  frm : Word
  stk : Word
  hea : Word
  mem : Mem

/-- the registers that no instruction changes -/
structure AmxConst where
  cod : Word
  dat : Word
  stp : Word

namespace AmxState

def cell (a : AmxState) (address : Word) : Word := a.mem.read32 address

def setCell (a : AmxState) (address v : Word) : AmxState :=
  { a with mem := a.mem.write32 address v }

/-- `[STK] = v, STK = STK - cell size` -/
def push (a : AmxState) (v : Word) : AmxState :=
  { a.setCell (a.stk - 4) v with stk := a.stk - 4 }

/-- `STK = STK + cell size`; the popped cell is `a.cell a.stk` -/
def drop (a : AmxState) : AmxState := { a with stk := a.stk + 4 }

/-- `n` bytes at `[PRI]` copied to `[ALT]` -/
def movs (a : AmxState) (n : Nat) : AmxState :=
  { a with mem := fun x =>
      if (x - a.alt).toNat < n then a.mem (a.pri + (x - a.alt)) else a.mem x }

/-- `n` cells at `[ALT]` filled with PRI -/
def fill (a : AmxState) (n : Nat) : AmxState :=
  { a with mem := fun x =>
      if (x - a.alt).toNat < 4 * n then
        a.pri.extractLsb' (8 * ((x - a.alt).toNat % 4)) 8
      else a.mem x }

end AmxState

/-- truth values of the AMX -/
def truth (p : Prop) [Decidable p] : Word := if p then 1 else 0

/-- `PRI = "number" bytes from [PRI]` -/
def lodbI (v : Word) (a : AmxState) : AmxState :=
  if v = 1 then { a with pri := (a.mem.read8 a.pri).setWidth 32 }
  else if v = 2 then { a with pri := (a.mem.read16 a.pri).setWidth 32 }
  else { a with pri := a.cell a.pri }

/-- `"number" bytes at [ALT] = PRI` -/
def strbI (v : Word) (a : AmxState) : AmxState :=
  { a with mem := a.mem.write a.alt v.toNat a.pri }

/-- `ALIGN` changes nothing unless the number is below the cell size -/
def align (v x : Word) : Word := if v.toNat < 4 then x ^^^ (4 - v) else x

def lctrl (k : AmxConst) (v next : Word) (a : AmxState) : Word :=
  if v = 0 then k.cod else if v = 1 then k.dat else if v = 2 then a.hea else if v = 3 then k.stp
  else if v = 4 then a.stk else if v = 5 then a.frm else if v = 6 then next else 1

def sctrl (v : Word) (a : AmxState) : AmxState :=
  if v = 2 then { a with hea := a.pri } else if v = 4 then { a with stk := a.pri }
  else { a with frm := a.pri }

/-- The meaning of the data opcodes. -/
def dataStep (k : AmxConst) (op : OpcodeID) (v next : Word) (a : AmxState) : AmxState :=
  match op with
  | .loadPri => { a with pri := a.cell v }
  | .loadAlt => { a with alt := a.cell v }
  | .loadSPri => { a with pri := a.cell (a.frm + v) }
  | .loadSAlt => { a with alt := a.cell (a.frm + v) }
  | .lrefPri => { a with pri := a.cell (a.cell v) }
  | .lrefAlt => { a with alt := a.cell (a.cell v) }
  | .lrefSPri => { a with pri := a.cell (a.cell (a.frm + v)) }
  | .lrefSAlt => { a with alt := a.cell (a.cell (a.frm + v)) }
  | .loadI => { a with pri := a.cell a.pri }
  | .lodbI => lodbI v a
  | .constPri => { a with pri := v }
  | .constAlt => { a with alt := v }
  | .addrPri => { a with pri := a.frm + v }
  | .addrAlt => { a with alt := a.frm + v }
  | .storPri => a.setCell v a.pri
  | .storAlt => a.setCell v a.alt
  | .storSPri => a.setCell (a.frm + v) a.pri
  | .storSAlt => a.setCell (a.frm + v) a.alt
  | .srefPri => a.setCell (a.cell v) a.pri
  | .srefAlt => a.setCell (a.cell v) a.alt
  | .srefSPri => a.setCell (a.cell (a.frm + v)) a.pri
  | .srefSAlt => a.setCell (a.cell (a.frm + v)) a.alt
  | .storI => a.setCell a.alt a.pri
  | .strbI => strbI v a
  | .lidx => { a with pri := a.cell (a.alt + a.pri * 4) }
  | .lidxB => { a with pri := a.cell (a.alt + a.pri <<< v.toNat) }
  | .idxaddr => { a with pri := a.alt + a.pri * 4 }
  | .idxaddrB => { a with pri := a.alt + a.pri <<< v.toNat }
  | .alignPri => { a with pri := align v a.pri }
  | .alignAlt => { a with alt := align v a.alt }
  | .lctrl => { a with pri := lctrl k v next a }
  | .sctrl => sctrl v a
  | .movePri => { a with pri := a.alt }
  | .moveAlt => { a with alt := a.pri }
  | .xchg => { a with pri := a.alt, alt := a.pri }
  | .pushPri => a.push a.pri
  | .pushAlt => a.push a.alt
  | .pushC => a.push v
  | .push => a.push (a.cell v)
  | .pushS => a.push (a.cell (a.frm + v))
  | .popPri => { a.drop with pri := a.cell a.stk }
  | .popAlt => { a.drop with alt := a.cell a.stk }
  | .stack => { a with alt := a.stk, stk := a.stk + v }
  | .heap => { a with alt := a.hea, hea := a.hea + v }
  | .shl => { a with pri := a.pri <<< (a.alt.toNat % 32) }
  | .shr => { a with pri := a.pri >>> (a.alt.toNat % 32) }
  | .sshr => { a with pri := a.pri.sshiftRight (a.alt.toNat % 32) }
  | .shlCPri => { a with pri := a.pri <<< (v.toNat % 32) }
  | .shlCAlt => { a with alt := a.alt <<< (v.toNat % 32) }
  | .shrCPri => { a with pri := a.pri >>> (v.toNat % 32) }
  | .shrCAlt => { a with alt := a.alt >>> (v.toNat % 32) }
  | .smul | .umul => { a with pri := a.pri * a.alt }
  | .udiv => { a with pri := a.pri / a.alt, alt := a.pri % a.alt }
  | .udivAlt => { a with pri := a.alt / a.pri, alt := a.alt % a.pri }
  | .add => { a with pri := a.pri + a.alt }
  | .sub => { a with pri := a.pri - a.alt }
  | .subAlt => { a with pri := a.alt - a.pri }
  | .and => { a with pri := a.pri &&& a.alt }
  | .or => { a with pri := a.pri ||| a.alt }
  | .xor => { a with pri := a.pri ^^^ a.alt }
  | .not => { a with pri := truth (a.pri = 0) }
  | .neg => { a with pri := -a.pri }
  | .invert => { a with pri := ~~~a.pri }
  | .addC => { a with pri := a.pri + v }
  | .smulC => { a with pri := a.pri * v }
  | .zeroPri => { a with pri := 0 }
  | .zeroAlt => { a with alt := 0 }
  | .zero => a.setCell v 0
  | .zeroS => a.setCell (a.frm + v) 0
  | .signPri => { a with pri := (a.pri.setWidth 8).signExtend 32 }
  | .signAlt => { a with alt := (a.alt.setWidth 8).signExtend 32 }
  | .eq => { a with pri := truth (a.pri = a.alt) }
  | .neq => { a with pri := truth (a.pri ≠ a.alt) }
  | .less => { a with pri := truth (a.pri.toNat < a.alt.toNat) }
  | .leq => { a with pri := truth (a.pri.toNat ≤ a.alt.toNat) }
  | .grtr => { a with pri := truth (a.alt.toNat < a.pri.toNat) }
  | .geq => { a with pri := truth (a.alt.toNat ≤ a.pri.toNat) }
  | .sless => { a with pri := truth (a.pri.toInt < a.alt.toInt) }
  | .sleq => { a with pri := truth (a.pri.toInt ≤ a.alt.toInt) }
  | .sgrtr => { a with pri := truth (a.alt.toInt < a.pri.toInt) }
  | .sgeq => { a with pri := truth (a.alt.toInt ≤ a.pri.toInt) }
  | .eqCPri => { a with pri := truth (a.pri = v) }
  | .eqCAlt => { a with pri := truth (a.alt = v) }
  | .incPri => { a with pri := a.pri + 1 }
  | .incAlt => { a with alt := a.alt + 1 }
  | .inc => a.setCell v (a.cell v + 1)
  | .incS => a.setCell (a.frm + v) (a.cell (a.frm + v) + 1)
  | .incI => a.setCell a.pri (a.cell a.pri + 1)
  | .decPri => { a with pri := a.pri - 1 }
  | .decAlt => { a with alt := a.alt - 1 }
  | .dec => a.setCell v (a.cell v - 1)
  | .decS => a.setCell (a.frm + v) (a.cell (a.frm + v) - 1)
  | .decI => a.setCell a.pri (a.cell a.pri - 1)
  | .movs => a.movs v.toNat
  | .fill => a.fill (v.toNat / 4)
  | .swapPri => { a.setCell a.stk a.pri with pri := a.cell a.stk }
  | .swapAlt => { a.setCell a.stk a.alt with alt := a.cell a.stk }
  | .pushAdr => a.push (a.frm + v)
  | _ => a

/-- the block of `n` bytes from `address` on avoids the cell just below STK -/
def AmxState.Clear (a : AmxState) (address : Word) (n : Nat) : Prop :=
  ∀ x : Word, (x - address).toNat < n → 4 ≤ (x - (a.stk - 4)).toNat

/-- the opcodes, operands and states for which `dataStep` is the meaning -/
def DataDomain (op : OpcodeID) (v : Word) (a : AmxState) : Prop :=
  match op with
  | .lodbI | .strbI => v = 1 ∨ v = 2 ∨ v = 4
  | .lidxB | .idxaddrB => v.toNat ≤ 3
  | .lctrl => v.toNat ≤ 7
  | .sctrl => v = 2 ∨ v = 4 ∨ v = 5
  | .udiv => a.alt ≠ 0
  | .udivAlt => a.pri ≠ 0
  | .movs => 0 ≤ v.toInt ∧ BlockSep a.pri a.alt v.toNat ∧ a.Clear a.pri v.toNat ∧
      a.Clear a.alt v.toNat
  | .fill => 0 ≤ v.toInt ∧ a.Clear a.alt v.toNat
  | .none | .pushR | .proc | .ret | .retn | .call | .callPri | .jump | .jrel | .jzer | .jnz | .jeq
  | .jneq | .jless | .jleq | .jgrtr | .jgeq | .jsless | .jsleq | .jsgrtr | .jsgeq | .sdiv | .sdivAlt
  | .cmps | .halt | .bounds | .sysreqPri | .sysreqC | .file | .line | .symbol | .srange | .jumpPri
  | .switch | .casetbl | .nop | .sysreqD | .symtag | .brk => False
  | _ => True

end AmxJit
