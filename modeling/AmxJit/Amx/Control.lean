import AmxJit.Amx.Semantics

/-!
# The abstract machine: control flow

A configuration is the address of the current instruction, the state, and the list of the live
return-address cells: the cells that a CALL has written and no RET or RETN has consumed yet.

* `controlStep`   the control opcodes, as the comments in the main switch state them;
* `Step`          one instruction; data opcodes are given by a parameter `sem`;
* `Valid`         what is assumed of every configuration of a run: the address is that of a decoded
                  instruction, the free gap between HEA and STK has 16 cells, no live
                  return-address cell lies in it;
* `Tracks`        how a set of stale cells is followed over a step.  A cell is stale when it lies in
                  the free gap, or has lain there and has not been written since.
-/

namespace AmxJit
open X86

structure Config where
  cip : Word
  st : AmxState
  live : List Word

/-! ## control opcodes -/

/-- the condition of the jumps that compare PRI with ALT -/
def OpcodeID.compare (pri alt : Word) : OpcodeID → Option Bool
  | .jeq => some (decide (pri = alt))
  | .jneq => some (decide (pri ≠ alt))
  | .jless => some (decide (pri.toNat < alt.toNat))
  | .jleq => some (decide (pri.toNat ≤ alt.toNat))
  | .jgrtr => some (decide (alt.toNat < pri.toNat))
  | .jgeq => some (decide (alt.toNat ≤ pri.toNat))
  | .jsless => some (decide (pri.toInt < alt.toInt))
  | .jsleq => some (decide (pri.toInt ≤ alt.toInt))
  | .jsgrtr => some (decide (alt.toInt < pri.toInt))
  | .jsgeq => some (decide (alt.toInt ≤ pri.toInt))
  | _ => Option.none

/-- the record of the case table that matches PRI, otherwise the default record -/
def switchTarget (records : List CaseRecord) (pri : Word) : Option Word :=
  match records.tail.find? fun c => c.value == pri with
  | some c => some c.address
  | none => records.head?.map CaseRecord.address

/-- RET and RETN: FRM and CIP from the stack, `drop` more bytes given up -/
def returnTo (c : Config) (drop : Word) : Option Config :=
  let a := c.st
  if a.stk + 4 ∈ c.live then
    some ⟨a.cell (a.stk + 4), { a with frm := a.cell a.stk, stk := a.stk + 8 + drop },
      c.live.filter (· ≠ a.stk + 4)⟩
  else none

def controlStep (r : AmxRef) (i : Instruction) (c : Config) : Option Config :=
  let a := c.st
  let dest := i.operand - r.code
  match OpcodeID.compare a.pri a.alt i.opcode with
  | some b => some { c with cip := if b then dest else i.next }
  | none =>
    match i.opcode with
    | .proc => some { c with cip := i.next, st := { a.push a.frm with frm := a.stk - 4 } }
    | .ret => returnTo c 0
    | .retn => returnTo c (a.cell (a.stk + 8) + 4)
    | .call => some ⟨dest, a.push i.next, (a.stk - 4) :: c.live⟩
    | .jump => some { c with cip := dest }
    | .jzer => some { c with cip := if a.pri = 0 then dest else i.next }
    | .jnz => some { c with cip := if a.pri ≠ 0 then dest else i.next }
    | .switch => (caseTable r i.operand).bind fun records =>
        (switchTarget records a.pri).map fun target => { c with cip := target }
    | .casetbl | .nop | .brk => some { c with cip := i.next }
    | _ => none

/-! ## memory regions -/

/-- the bytes of the cell at `k` -/
def cellAt (k : Word) : Set Word := {o | (o - k).toNat < 4}

/-- the bytes of some cells -/
def cellsOf (ks : List Word) : Set Word := {o | ∃ k ∈ ks, o ∈ cellAt k}

/-- the free gap `[HEA, STK)` -/
def AmxState.gap (a : AmxState) : Set Word := {o | (o - a.hea).toNat < (a.stk - a.hea).toNat}

/-- equal registers, and equal memory outside `E` -/
structure AgreeOff (E : Set Word) (a w : AmxState) : Prop where
  pri : w.pri = a.pri
  alt : w.alt = a.alt
  frm : w.frm = a.frm
  stk : w.stk = a.stk
  hea : w.hea = a.hea
  mem : ∀ o, o ∉ E → w.mem o = a.mem o

/-- In the state `a`, with the result `a'`, the transformer does not touch the cells in `E`: what
they hold has no influence outside `E'`, and the return-address cells `live` stay as they are. -/
def Untouched (f : AmxState → Option AmxState) (a a' : AmxState) (live : List Word)
    (E E' : Set Word) : Prop :=
  ∀ w, AgreeOff E a w → ∃ w', f w = some w' ∧ AgreeOff E' a' w' ∧
    ∀ o ∈ cellsOf live, w'.mem o = w.mem o

/-! ## steps -/

/-- the cells that RET and RETN read besides the return address -/
def readCellsOf (i : Instruction) (c : Config) : List Word :=
  if i.opcode = .ret then [c.st.stk]
  else if i.opcode = .retn then [c.st.stk, c.st.stk + 8]
  else []

/-- the cell that PROC writes below STK -/
def writtenCellsOf (i : Instruction) (c : Config) : List Word :=
  if i.opcode = .proc then [c.st.stk - 4] else []

/-- One instruction.  `sem` gives the data opcodes.  Only RET and RETN use a live return-address
cell, and only as the return address. -/
inductive Step (r : AmxRef) (instrs : List Instruction)
    (sem : Instruction → AmxState → Option AmxState) : Config → Config → Prop where
  | data {c : Config} {i : Instruction} {a' : AmxState} : i ∈ instrs → i.address = c.cip →
      sem i c.st = some a' →
      Untouched (sem i) c.st a' c.live (cellsOf c.live) (cellsOf c.live) →
      Step r instrs sem c ⟨i.next, a', c.live⟩
  | control {c c' : Config} {i : Instruction} : i ∈ instrs → i.address = c.cip →
      controlStep r i c = some c' → Disjoint (cellsOf (readCellsOf i c)) (cellsOf c.live) →
      Step r instrs sem c c'

structure Valid (instrs : List Instruction) (c : Config) : Prop where
  decoded : ∃ i ∈ instrs, i.address = c.cip
  gap : 16 * 4 ≤ (c.st.stk - c.st.hea).toNat
  live : Disjoint (cellsOf c.live) c.st.gap

/-- `stale'` are stale cells after the step from `c` to `c'` if `stale` are before it: the
instruction does not depend on them, and what it does not write stays stale. -/
structure Tracks (r : AmxRef) (instrs : List Instruction)
    (sem : Instruction → AmxState → Option AmxState) (c : Config) (stale : Set Word) (c' : Config)
    (stale' : Set Word) : Prop where
  gap : c'.st.gap ⊆ stale'
  data : ∀ i ∈ instrs, i.address = c.cip → sem i c.st = some c'.st →
    Untouched (sem i) c.st c'.st c.live (cellsOf c.live ∪ stale) (cellsOf c.live ∪ stale')
  reads : ∀ i ∈ instrs, i.address = c.cip → controlStep r i c = some c' →
    Disjoint (cellsOf (readCellsOf i c)) stale
  keeps : ∀ i ∈ instrs, i.address = c.cip → controlStep r i c = some c' →
    cellsOf c.live ∪ stale ⊆ cellsOf c'.live ∪ stale' ∪ cellsOf (writtenCellsOf i c)

end AmxJit
