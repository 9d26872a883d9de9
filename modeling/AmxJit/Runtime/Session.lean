import AmxJit.Compiler.Floats
import AmxJit.Runtime.Resume

/-!
# A public function, run by the abstract machine

`Concludes g post slept c E` says what the compiled code is to do, in terms of the abstract machine
alone: run from the configuration `c`, where the cells in `E` are stale, the function that the host has
called comes to an end with `post`, or goes to sleep in a configuration with `slept`.

* `Setting`     the program, the memory it works in, and the contract of the host functions;
* `Request`     what a host function is called with; `Answer`: what it leaves behind;
* `Safe`        the free gap has room for the runtime, and no live return address lies in it;
* `Concludes`   one constructor for each kind of move, and one for each way to end;
* `Finishes`    the function comes to its end, after `n` sleeps at most.
-/

namespace AmxJit
open X86

/-- what a host function is called with: FRM, STK and HEA, and the memory, by addresses in the data
section -/
structure Request where
  frm : Word
  stk : Word
  hea : Word
  mem : Mem

/-- what a host function leaves behind: its error, its result, HEA and the memory -/
structure Answer where
  error : Word
  pri : Word
  hea : Word
  mem : Mem

/-- The contract of the host functions.  `host f w q r`: called with `q`, the callback for the index `w`,
or the native at the address `w`, may answer `r`. -/
abbrev Host := Callee → Word → Request → Answer → Prop

/-- `post e a E` of the error, the state of the abstract machine, and the cells that nothing is said
about -/
abbrev Post := Word → AmxState → Set Word → Prop

/-- The program and its surroundings.  `area` is the memory of the AMX, by addresses in the data
section; `need` is how many bytes below STK the runtime uses; `pointer` is what `LCTRL 8` makes of
an address; `back` is the return address of the function that the host calls; `callee` is the host
function that a native call calls, and its index or address. -/
structure Setting where
  amx : AmxRef
  instrs : List Instruction
  sem : Instruction → AmxState → Option AmxState
  area : Set Word
  need : Nat
  pointer : Word → Word
  back : Word
  sleeps : Bool
  callee : Instruction → Word → Callee × Word
  host : Host

/-- RET and RETN, but for the return address -/
def AmxState.returned (a : AmxState) (op : OpcodeID) : AmxState :=
  { a with
    frm := a.cell a.stk
    stk := if op = .retn then a.stk + 8 + (a.cell (a.stk + 8) + 4) else a.stk + 8 }

namespace Setting
variable (g : Setting)

/-- The instruction `i` is next. -/
def At (i : Instruction) (c : Config) : Prop := i ∈ g.instrs ∧ i.address = c.cip

def Decoded (address : Word) : Prop := ∃ i ∈ g.instrs, i.address = address

/-- The runtime may be called. -/
structure Safe (c : Config) : Prop where
  room : g.need ≤ (c.st.stk - c.st.hea).toNat
  gap : c.st.gap ⊆ g.area
  live : Disjoint (cellsOf c.live) c.st.gap
  area : cellsOf c.live ⊆ g.area

/-- the cells that are stale in any case: the free gap, and what is not memory of the AMX -/
def outside (c : Config) : Set Word := c.st.gap ∪ g.areaᶜ

def Covers (c : Config) (E : Set Word) : Prop := g.outside c ⊆ E

/-- The data opcode `i` writes to memory of the AMX only. -/
def Confined (c : Config) (E : Set Word) : Prop :=
  ∀ i, g.At i c → ∀ w w', AgreeOff (cellsOf c.live ∪ E) c.st w → g.sem i w = some w' →
    Set.EqOn w'.mem w.mem g.areaᶜ

/-- The error is the one with which a script goes to sleep. -/
def Sleeping (error : Word) : Prop := g.sleeps = true ∧ error = AMX_ERR_SLEEP

/-- The script may go to sleep in front of the next instruction. -/
structure Wakeable (c : Config) : Prop extends g.Safe c where
  next : ∃ j ∈ g.instrs, j.address = c.cip ∧ j.opcode ≠ .proc

end Setting

open Classical in
/-- the configuration behind a native call: the live return addresses are still there, the rest of the
memory is that of the answer -/
noncomputable def Config.answered (c : Config) (i : Instruction) (r : Answer) : Config where
  cip := i.next
  st := { c.st with
    pri := r.pri, hea := r.hea, mem := (cellsOf c.live).piecewise c.st.mem r.mem }
  live := c.live

theorem Config.answered_mem {c : Config} {o : Word} (i : Instruction) (r : Answer)
    (ho : o ∉ cellsOf c.live) : (c.answered i r).st.mem o = r.mem o := by
  classical
  exact Set.piecewise_eq_of_notMem _ _ _ ho

theorem Config.answered_live {c : Config} {o : Word} (i : Instruction) (r : Answer)
    (ho : o ∈ cellsOf c.live) : (c.answered i r).st.mem o = c.st.mem o := by
  classical
  exact Set.piecewise_eq_of_mem _ _ _ ho

/-- In the configuration `c`, where the cells in `E` are stale, a host function may be called with `q`:
these cells may hold anything. -/
structure Config.Asks (c : Config) (E : Set Word) (q : Request) : Prop where
  frm : q.frm = c.st.frm
  stk : q.stk = c.st.stk
  hea : q.hea = c.st.hea
  mem : ∀ o, o ∉ cellsOf c.live ∪ E → q.mem o = c.st.mem o

/-- The host function that `i` calls may be called with `q`, and answer `r`. -/
def Setting.Exchange (g : Setting) (i : Instruction) (c : Config) (E : Set Word) (q : Request)
    (r : Answer) : Prop :=
  c.Asks E q ∧ g.host (g.callee i c.st.pri).1 (g.callee i c.st.pri).2 q r

/-- **The function comes to an end with `post`, or goes to sleep with `slept`.** -/
inductive Concludes (g : Setting) (post : Post) (slept : Config → Set Word → Prop) :
    Config → Set Word → Prop where
  | step {c c' : Config} {E E' : Set Word} : Step g.amx g.instrs g.sem c c' →
      Valid g.instrs c → Valid g.instrs c' → Tracks g.amx g.instrs g.sem c E c' E' →
      g.Confined c E → c.st.gap ∪ c'.st.gap ⊆ g.area → g.Covers c' E' →
      Concludes g post slept c' E' → Concludes g post slept c E
  | inBounds {c : Config} {E : Set Word} {i : Instruction} : g.At i c → i.opcode = .bounds →
      0 ≤ c.st.pri.toInt → c.st.pri.toInt ≤ i.operand.toInt → g.Decoded i.next →
      Concludes g post slept { c with cip := i.next } E → Concludes g post slept c E
  | outOfBounds {c : Config} {E : Set Word} {i : Instruction} : g.At i c → i.opcode = .bounds →
      i.operand.toInt < c.st.pri.toInt ∨ c.st.pri.toInt < 0 → g.Safe c →
      post AMX_ERR_BOUNDS c.st (cellsOf c.live ∪ E) → Concludes g post slept c E
  /-- to the instruction whose address is PRI, or on if there is none -/
  | jump {c : Config} {E : Set Word} {i j : Instruction} : g.At i c → i.JumpsToPri → g.Safe c →
      j ∈ g.instrs → j.address = c.st.pri ∨ j.address = i.next ∧ ¬ g.Decoded c.st.pri →
      Concludes g post slept { c with cip := j.address } E → Concludes g post slept c E
  /-- `LCTRL 8` -/
  | lookup {c : Config} {E : Set Word} {i : Instruction} : g.At i c → i.opcode = .lctrl →
      i.operand = 8 → g.Safe c → g.Decoded i.next →
      Concludes g post slept ⟨i.next, { c.st with pri := g.pointer c.st.pri }, c.live⟩ E →
      Concludes g post slept c E
  /-- `SCTRL 8`, to the instruction that PRI points to -/
  | goto {c : Config} {E : Set Word} {i j : Instruction} : g.At i c → i.opcode = .sctrl →
      i.operand = 8 → j ∈ g.instrs → g.pointer j.address = c.st.pri →
      Concludes g post slept { c with cip := j.address } E → Concludes g post slept c E
  /-- a native of float.inc, whatever the x87 unit delivers -/
  | float {c : Config} {E : Set Word} {i : Instruction} {n : FloatNative} : g.At i c →
      floatNative g.amx i = some n → g.Safe c → g.Decoded i.next →
      (∀ v, n.MayReturn v → Concludes g post slept ⟨i.next, { c.st with pri := v }, c.live⟩ E) →
      Concludes g post slept c E
  /-- whatever the host function answers by its contract; it may put the script to sleep -/
  | native {c : Config} {E : Set Word} {i : Instruction} : g.At i c → i.opcode.requests = true →
      i.intrinsic g.amx = none → g.Safe c → g.Decoded i.next →
      (∀ q r, g.Exchange i c E q r →
        g.Safe (c.answered i r) ∧ Set.EqOn r.mem q.mem (cellsOf c.live)) →
      (∀ q r, g.Exchange i c E q r → r.error = AMX_ERR_NONE →
        Concludes g post slept (c.answered i r) (g.outside (c.answered i r))) →
      (∀ q r, g.Exchange i c E q r → r.error ≠ AMX_ERR_NONE → ¬ g.Sleeping r.error →
        post r.error (c.answered i r).st (cellsOf c.live ∪ g.outside (c.answered i r))) →
      (∀ q r, g.Exchange i c E q r → g.Sleeping r.error →
        g.Wakeable (c.answered i r) ∧ slept (c.answered i r) (g.outside (c.answered i r))) →
      Concludes g post slept c E
  | return' {c : Config} {E : Set Word} {i : Instruction} : g.At i c →
      i.opcode = .ret ∨ i.opcode = .retn →
      Disjoint (cellsOf ((c.st.stk + 4) :: readCellsOf i c)) (cellsOf c.live ∪ E) →
      c.st.cell (c.st.stk + 4) = g.back →
      g.Safe ⟨i.next, c.st.returned i.opcode, c.live⟩ →
      post AMX_ERR_NONE (c.st.returned i.opcode)
        (cellsOf c.live ∪ E ∪ (c.st.returned i.opcode).gap) → Concludes g post slept c E
  | halt {c : Config} {E : Set Word} {i : Instruction} : g.At i c → i.opcode = .halt →
      ¬ g.Sleeping i.operand → g.Safe c → post i.operand c.st (cellsOf c.live ∪ E) →
      Concludes g post slept c E
  | sleep {c : Config} {E : Set Word} {i : Instruction} : g.At i c → i.opcode = .halt →
      g.Sleeping i.operand → g.Wakeable { c with cip := i.next } →
      slept { c with cip := i.next } E → Concludes g post slept c E

/-- The function comes to an end with `post`, after at most `n` sleeps. -/
def Finishes (g : Setting) (post : Post) : Nat → Config → Set Word → Prop
  | 0 => Concludes g post fun _ _ => False
  | n + 1 => Concludes g post (Finishes g post n)

theorem Concludes.decoded {g : Setting} {post : Post} {slept : Config → Set Word → Prop}
    {c : Config} {E : Set Word} (h : Concludes g post slept c E) : g.Decoded c.cip := by
  cases h with
  | step _ hv _ _ _ _ _ _ => exact hv.decoded
  | inBounds hi | outOfBounds hi | jump hi | lookup hi | goto hi | float hi | native hi | return' hi
  | halt hi | sleep hi =>
    exact ⟨_, hi⟩

theorem Finishes.decoded {g : Setting} {post : Post} {n : Nat} {c : Config} {E : Set Word}
    (h : Finishes g post n c E) : g.Decoded c.cip := by
  cases n with
  | zero => exact Concludes.decoded h
  | succ n => exact Concludes.decoded h

end AmxJit
