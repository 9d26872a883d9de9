import AmxJit.X86.State

/-!
# Instructions and their execution

`Instr C L` is the instruction set over named cells `C` and code labels `L`.

* `exec addr i s`        an instruction that falls through: the state without the new `pc`;
* `step addr i next s`   any instruction, `next` being the address of the instruction behind it;
* `runSeq addr is s`     a straight line of instructions.

`none` is a fault: a divide error, a bad structure pointer, a jump to a label without address.
Flags that the processor leaves undefined keep their old value.
-/

namespace X86

/-- the count of a shift: `cl` or an immediate byte -/
inductive Count where
  | cl
  | imm (n : BitVec 8)
  deriving DecidableEq

inductive Instr (C L : Type) where
  | mov (d s : Opnd C)
  | mov8 (p : Ptr) (r : Reg8)
  | mov16 (p : Ptr) (r : Reg)
  | movzx8 (d : Reg) (r : Reg8)
  | movzx8m (d : Reg) (p : Ptr)
  | movzx16m (d : Reg) (p : Ptr)
  | movsx8 (d : Reg) (r : Reg8)
  | lea (d : Reg) (p : Ptr)
  | leaLabel (d : Reg) (l : L)
  | push (s : Opnd C)
  | pop (d : Opnd C)
  | add (d s : Opnd C)
  | sub (d s : Opnd C)
  | and (d s : Opnd C)
  | or (d s : Opnd C)
  | xor (d s : Opnd C)
  | cmp (a b : Opnd C)
  | test (a b : Opnd C)
  | test8 (r : Reg8) (v : Byte)
  | inc (d : Opnd C)
  | dec (d : Opnd C)
  | neg (d : Reg)
  | not (d : Reg)
  | xchg (a b : Opnd C)
  | xchg8 (a b : Reg8)
  | shl (d : Reg) (n : Count)
  | shr (d : Reg) (n : Count)
  | sar (d : Reg) (n : Count)
  | ror (d : Reg) (n : Count)
  | imul1 (s : Reg)
  | imul (d s : Reg) (v : Word)
  | mul (s : Reg)
  | div (s : Reg)
  | idiv (s : Reg)
  | cdq
  | setcc (c : Cond) (r : Reg8)
  | repMovs (w : Nat)
  | repStosd
  | repeCmpsb
  | nop
  | int3
  | fpu (op : FpuOp) (p : Ptr)
  | fnstsw
  | jmp (l : L)
  | jcc (c : Cond) (l : L)
  | jmpReg (r : Reg)
  | call (l : L)
  | callReg (r : Reg)
  | callOp (o : Opnd C)
  | callAbs (a : Word)
  | ret
  deriving DecidableEq

variable {C V L : Type}

/-! ## shifts, products, quotients -/

def State.count (s : State V) : Count → Nat
  | .cl => (s.get8 .cl).toNat % 32
  | .imm n => n.toNat % 32

/-- the flags of a shift: carry and result, unchanged for the count 0 -/
def Flags.shift (f : Flags) (n : Nat) (r : Word) (carry ovf : Bool) : Flags :=
  if n = 0 then f
  else { f.logic r with cf := carry, of := if n = 1 then ovf else f.of }

def State.doShl (s : State V) (d : Reg) (n : Nat) : State V :=
  let x := s.get d
  let r := x <<< n
  { s.set d r with flags := s.flags.shift n r (x.getLsbD (32 - n)) (r.msb ^^ x.getLsbD (32 - n)) }

def State.doShr (s : State V) (d : Reg) (n : Nat) : State V :=
  let x := s.get d
  let r := x >>> n
  { s.set d r with flags := s.flags.shift n r (x.getLsbD (n - 1)) x.msb }

def State.doSar (s : State V) (d : Reg) (n : Nat) : State V :=
  let x := s.get d
  let r := x.sshiftRight n
  { s.set d r with flags := s.flags.shift n r (x.getLsbD (n - 1)) false }

def State.doRor (s : State V) (d : Reg) (n : Nat) : State V :=
  let r := (s.get d).rotateRight n
  { s.set d r with flags := if n = 0 then s.flags else { s.flags with cf := r.msb } }

/-- `edx:eax` becomes the 64-bit product `p`; `carry`: the high half is significant -/
def State.product (s : State V) (p : BitVec 64) (carry : Bool) : State V :=
  { s with eax := p.extractLsb' 0 32, edx := p.extractLsb' 32 32,
           flags := { s.flags with cf := carry, of := carry } }

def State.doImul1 (s : State V) (v : Word) : State V :=
  let p : BitVec 64 := s.eax.signExtend 64 * v.signExtend 64
  s.product p (p != (p.extractLsb' 0 32).signExtend 64)

/-- `d` becomes the product of `r` and `v`; carry and overflow: it has more than 32 bits -/
def State.doImul (s : State V) (d r : Reg) (v : Word) : State V :=
  let carry := BitVec.smulOverflow (s.get r) v
  { s.set d (s.get r * v) with flags := { s.flags with cf := carry, of := carry } }

def State.doMul (s : State V) (v : Word) : State V :=
  let p : BitVec 64 := s.eax.setWidth 64 * v.setWidth 64
  s.product p (p.extractLsb' 32 32 != 0)

/-- `edx:eax` divided by `v`, unsigned; a zero divisor or a quotient of more than 32 bits faults -/
def State.doDiv (s : State V) (v : Word) : Option (State V) :=
  let n := s.edx.toNat * 2^32 + s.eax.toNat
  if v = 0 then none
  else if 2^32 ≤ n / v.toNat then none
  else some { s with eax := BitVec.ofNat 32 (n / v.toNat), edx := BitVec.ofNat 32 (n % v.toNat) }

/-- `edx:eax` divided by `v`, signed, rounding to zero; faults like `doDiv` -/
def State.doIdiv (s : State V) (v : Word) : Option (State V) :=
  let n := (s.edx ++ s.eax : BitVec 64).toInt
  let q := n.tdiv v.toInt
  if v = 0 then none
  else if q < -2^31 ∨ 2^31 ≤ q then none
  else some { s with eax := BitVec.ofInt 32 q, edx := BitVec.ofInt 32 (n.tmod v.toInt) }

/-! ## string instructions -/

/-- `w` bytes copied from `src` to `dst` -/
def Mem.copy (m : Mem) (dst src : Word) (w : Nat) : Mem := fun x =>
  if (x - dst).toNat < w then m (src + (x - dst)) else m x

/-- how a string pointer moves after an element of `w` bytes -/
def State.advance (s : State V) (p : Word) (w : Nat) : Word :=
  if s.flags.df then p - BitVec.ofNat 32 w else p + BitVec.ofNat 32 w

def State.movs (s : State V) (w : Nat) : State V :=
  { s with mem := s.mem.copy s.edi s.esi w, esi := s.advance s.esi w, edi := s.advance s.edi w,
           ecx := s.ecx - 1 }

def State.stosd (s : State V) : State V :=
  { s with mem := s.mem.write32 s.edi s.eax, edi := s.advance s.edi 4, ecx := s.ecx - 1 }

def State.cmpsb (s : State V) : State V :=
  { s with flags := s.flags.sub8 (s.mem s.esi) (s.mem s.edi), esi := s.advance s.esi 1,
           edi := s.advance s.edi 1, ecx := s.ecx - 1 }

def State.repMovs (w : Nat) : Nat → State V → State V
  | 0, s => s
  | n + 1, s => State.repMovs w n (s.movs w)

def State.repStosd : Nat → State V → State V
  | 0, s => s
  | n + 1, s => State.repStosd n s.stosd

def State.repeCmpsb : Nat → State V → State V
  | 0, s => s
  | n + 1, s => if s.cmpsb.flags.zf then State.repeCmpsb n s.cmpsb else s.cmpsb

/-! ## execution -/

section
variable [Cells C V]

/-- `d := f d v` with the flags `g d v` -/
def State.alu (s : State V) (d : Opnd C) (v : Option Word) (f : Word → Word → Word)
    (g : Flags → Word → Word → Flags) : Option (State V) :=
  (s.load d).bind fun x => v.bind fun y =>
    (s.store d (f x y)).map fun t => { t with flags := g s.flags x y }

def exec (addr : L → Option Word) (i : Instr C L) (s : State V) : Option (State V) :=
  match i with
  | .mov d o => (s.load o).bind (s.store d)
  | .mov8 p r => some { s with mem := s.mem.write (s.ea p) 1 (s.get8 r) }
  | .mov16 p r => some { s with mem := s.mem.write (s.ea p) 2 (s.get r) }
  | .movzx8 d r => some (s.set d ((s.get8 r).setWidth 32))
  | .movzx8m d p => some (s.set d ((s.mem.read8 (s.ea p)).setWidth 32))
  | .movzx16m d p => some (s.set d ((s.mem.read16 (s.ea p)).setWidth 32))
  | .movsx8 d r => some (s.set d ((s.get8 r).signExtend 32))
  | .lea d p => some (s.set d (s.ea p))
  | .leaLabel d l => (addr l).map (s.set d)
  | .push o => (s.load o).map s.push
  | .pop d => { s with esp := s.esp + 4 }.store d s.top
  | .add d o => s.alu d (s.load o) (· + ·) Flags.add
  | .sub d o => s.alu d (s.load o) (· - ·) Flags.sub
  | .and d o => s.alu d (s.load o) (· &&& ·) fun f x y => f.logic (x &&& y)
  | .or d o => s.alu d (s.load o) (· ||| ·) fun f x y => f.logic (x ||| y)
  | .xor d o => s.alu d (s.load o) (· ^^^ ·) fun f x y => f.logic (x ^^^ y)
  | .cmp a b => (s.load a).bind fun x => (s.load b).map fun y =>
      { s with flags := s.flags.sub x y }
  | .test a b => (s.load a).bind fun x => (s.load b).map fun y =>
      { s with flags := s.flags.logic (x &&& y) }
  | .test8 r v => some { s with flags := { s.flags.logic ((s.get8 r &&& v).setWidth 32) with
      sf := (s.get8 r &&& v).msb } }
  | .inc d => s.alu d (some 1) (· + ·) fun f x y => { f.add x y with cf := f.cf }
  | .dec d => s.alu d (some 1) (· - ·) fun f x y => { f.sub x y with cf := f.cf }
  | .neg d => some { s.set d (-s.get d) with flags := s.flags.sub 0 (s.get d) }
  | .not d => some (s.set d (~~~s.get d))
  | .xchg a b => (s.load a).bind fun x => (s.load b).bind fun y =>
      (s.store a y).bind fun t => t.store b x
  | .xchg8 a b => some ((s.set8 a (s.get8 b)).set8 b (s.get8 a))
  | .shl d n => some (s.doShl d (s.count n))
  | .shr d n => some (s.doShr d (s.count n))
  | .sar d n => some (s.doSar d (s.count n))
  | .ror d n => some (s.doRor d (s.count n))
  | .imul1 r => some (s.doImul1 (s.get r))
  | .imul d r v => some (s.doImul d r v)
  | .mul r => some (s.doMul (s.get r))
  | .div r => s.doDiv (s.get r)
  | .idiv r => s.doIdiv (s.get r)
  | .cdq => some { s with edx := if s.eax.msb then BitVec.allOnes 32 else 0 }
  | .setcc c r => some (s.set8 r (if c.holds s.flags then 1 else 0))
  | .repMovs w => some (State.repMovs w s.ecx.toNat s)
  | .repStosd => some (State.repStosd s.ecx.toNat s)
  | .repeCmpsb => some (State.repeCmpsb s.ecx.toNat s)
  | .nop => some s
  | .int3 => some s
  | .fpu op p =>
    let r := Cells.fpu C op (s.mem.read32 (s.ea p)) s.vars
    some { s with vars := r.1, mem := if op = .fstp then s.mem.write32 (s.ea p) r.2 else s.mem }
  | .fnstsw =>
    let r := Cells.fpu C .fnstsw 0 s.vars
    some { s with vars := r.1, eax := s.eax.extractLsb' 16 16 ++ r.2.extractLsb' 0 16 }
  | _ => none

def step (addr : L → Option Word) (i : Instr C L) (next : Word) (s : State V) :
    Option (State V) :=
  match i with
  | .jmp l => (addr l).map fun a => { s with pc := a }
  | .jcc c l =>
    if c.holds s.flags then (addr l).map fun a => { s with pc := a } else some { s with pc := next }
  | .jmpReg r => some { s with pc := s.get r }
  | .call l => (addr l).map fun a => { s.push next with pc := a }
  | .callReg r => some { s.push next with pc := s.get r }
  | .callOp o => (s.load o).map fun a => { s.push next with pc := a }
  | .callAbs a => some { s.push next with pc := a }
  | .ret => some { s with pc := s.top, esp := s.esp + 4 }
  | i => (exec addr i s).map fun t => { t with pc := next }

/-- a straight line of instructions -/
def runSeq (addr : L → Option Word) : List (Instr C L) → State V → Option (State V)
  | [], s => some s
  | i :: is, s => (exec addr i s).bind (runSeq addr is)

variable (addr : L → Option Word)

@[simp] theorem runSeq_nil (s : State V) : runSeq (C := C) addr [] s = some s := rfl

@[simp] theorem runSeq_cons (i : Instr C L) (is : List (Instr C L)) (s : State V) :
    runSeq addr (i :: is) s = (exec addr i s).bind (runSeq addr is) := rfl

theorem runSeq_append (is js : List (Instr C L)) (s : State V) :
    runSeq addr (is ++ js) s = (runSeq addr is s).bind (runSeq addr js) := by
  induction is generalizing s with
  | nil => rfl
  | cons i is ih =>
    rw [List.cons_append, runSeq_cons, runSeq_cons, Option.bind_assoc]
    exact Option.bind_congr fun t _ => ih t

/-- a fall-through instruction moves `pc` to the next instruction -/
theorem step_of_exec {i : Instr C L} {s t : State V} (h : exec addr i s = some t) (next : Word) :
    step addr i next s = some { t with pc := next } := by
  cases i <;>
    first
    | exact congrArg (Option.map fun u : State V => { u with pc := next }) h
    | exact absurd h (Option.some_ne_none t).symm

/-! ## execution does not look at `pc` -/

theorem get_pc (s : State V) (c : Word) (r : Reg) : { s with pc := c }.get r = s.get r := by
  cases r <;> rfl

theorem set_pc (s : State V) (c : Word) (r : Reg) (v : Word) :
    { s with pc := c }.set r v = { s.set r v with pc := c } := by
  cases r <;> rfl

theorem set8_pc (s : State V) (c : Word) (r : Reg8) (v : Byte) :
    { s with pc := c }.set8 r v = { s.set8 r v with pc := c } := by
  cases r <;> rfl

theorem get8_pc (s : State V) (c : Word) (r : Reg8) : { s with pc := c }.get8 r = s.get8 r := by
  cases r <;> rfl

theorem ea_pc (s : State V) (c : Word) (p : Ptr) : { s with pc := c }.ea p = s.ea p := by
  unfold State.ea
  cases p.index <;> simp only [get_pc]

theorem load_pc (s : State V) (c : Word) (o : Opnd C) : { s with pc := c }.load o = s.load o := by
  cases o <;> simp only [State.load, get_pc, ea_pc]

theorem store_pc (s : State V) (c : Word) (o : Opnd C) (v : Word) :
    { s with pc := c }.store o v = (s.store o v).map fun t => { t with pc := c } := by
  cases o with
  | reg r => exact congrArg some (set_pc s c r v)
  | imm w => rfl
  | mem p => simp only [State.store, ea_pc, Option.map_some]
  | var x => rfl
  | field r x =>
    simp only [State.store, get_pc]
    split <;> rfl

theorem alu_pc (s : State V) (c : Word) (d : Opnd C) (v : Option Word) (f : Word → Word → Word)
    (g : Flags → Word → Word → Flags) :
    { s with pc := c }.alu d v f g = (s.alu d v f g).map fun t => { t with pc := c } := by
  unfold State.alu
  rw [load_pc]
  cases s.load d <;> cases v <;> simp [store_pc, Function.comp_def]

theorem repMovs_pc (w n : Nat) (s : State V) (c : Word) :
    State.repMovs w n { s with pc := c } = { State.repMovs w n s with pc := c } := by
  induction n generalizing s with
  | zero => rfl
  | succ n ih => exact ih (s.movs w)

theorem repStosd_pc (n : Nat) (s : State V) (c : Word) :
    State.repStosd n { s with pc := c } = { State.repStosd n s with pc := c } := by
  induction n generalizing s with
  | zero => rfl
  | succ n ih => exact ih s.stosd

theorem repeCmpsb_pc (n : Nat) (s : State V) (c : Word) :
    State.repeCmpsb n { s with pc := c } = { State.repeCmpsb n s with pc := c } := by
  induction n generalizing s with
  | zero => rfl
  | succ n ih =>
    show (if s.cmpsb.flags.zf then State.repeCmpsb n { s.cmpsb with pc := c }
      else { s.cmpsb with pc := c }) =
      { State.repeCmpsb (n + 1) s with pc := c }
    rw [State.repeCmpsb]
    split
    · exact ih s.cmpsb
    · rfl

/-- execution does not look at `pc` -/
theorem exec_pc (i : Instr C L) (s : State V) (c : Word) :
    exec addr i { s with pc := c } = (exec addr i s).map fun t => { t with pc := c } := by
  cases i with
  | mov d o =>
    simp only [exec, load_pc, Option.map_bind]
    exact Option.bind_congr fun v _ => store_pc s c d v
  | pop d => exact store_pc { s with esp := s.esp + 4 } c d s.top
  | xchg a b =>
    simp only [exec, load_pc, store_pc, Option.map_bind, Function.comp_def, Option.bind_map]
  | leaLabel d l =>
    simp only [exec, Option.map_map]
    exact congrArg (Option.map · (addr l)) (funext fun v => set_pc s c d v)
  | push o =>
    simp only [exec, load_pc, Option.map_map]
    rfl
  | imul1 r => cases r <;> rfl
  | imul d r v =>
    simp only [exec, State.doImul, get_pc, set_pc, Option.map_some]
  | mul r => cases r <;> rfl
  | shl d n => cases d <;> rfl
  | shr d n => cases d <;> rfl
  | sar d n => cases d <;> rfl
  | ror d n => cases d <;> rfl
  | neg d => cases d <;> rfl
  | xchg8 a b => cases a <;> cases b <;> rfl
  | div r =>
    simp only [exec, get_pc, State.doDiv]
    split
    · rfl
    · split <;> rfl
  | idiv r =>
    simp only [exec, get_pc, State.doIdiv]
    split
    · rfl
    · split <;> rfl
  | _ =>
    simp only [exec, load_pc, alu_pc, ea_pc, get_pc, set_pc, get8_pc, set8_pc, repMovs_pc,
      repStosd_pc, repeCmpsb_pc, Option.map_some, Option.map_none, Option.map_map, Option.map_bind,
      Function.comp_def]

theorem runSeq_pc (is : List (Instr C L)) (s : State V) (c : Word) :
    runSeq addr is { s with pc := c } = (runSeq addr is s).map fun t => { t with pc := c } := by
  induction is generalizing s with
  | nil => rfl
  | cons i is ih =>
    rw [runSeq_cons, runSeq_cons, exec_pc, Option.map_bind, Option.bind_map]
    exact Option.bind_congr fun t _ => ih t

end

end X86
