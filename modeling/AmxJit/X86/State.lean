import AmxJit.X86.Mem

/-!
# Registers, flags, operands and the machine state

The part of the 32-bit x86 state that integer code sees.  Besides byte memory the machine has
NAMED cells: static data addressed by a label (`Opnd.var`) and fields of host structures
addressed as `[register + offsetof(..)]` (`Opnd.field`).  Their names `C` and their store `V` are
parameters (`Cells`); a field is accessible only through a register that holds the address of
its object (`Cells.ptr`), any other pointer faults.  Named cells and byte memory do not overlap.
-/

namespace X86

inductive Reg where
  | eax | ecx | edx | ebx | esp | ebp | esi | edi
  deriving DecidableEq, Repr

inductive Reg8 where
  | al | cl | ah
  deriving DecidableEq, Repr

structure Flags where
  cf : Bool
  pf : Bool
  zf : Bool
  sf : Bool
  of : Bool
  df : Bool
  deriving DecidableEq, Repr

/-- operations of the x87 unit -/
inductive FpuOp where
  | fild | fld | fstp | fadd | fsub | fmul | fdiv | fabs | fsqrt | fld1 | fyl2x | fdivrp
  | fcompp | fnstsw
  deriving DecidableEq, Repr

/-- The named cells of a machine.  The x87 unit is left abstract: `fpu op x` maps the store and
the operand to the new store and the value the operation writes. -/
class Cells (C V : Type) where
  get : C → V → Word
  set : C → Word → V → V
  ptr : C → V → Word
  fpu : FpuOp → Word → V → V × Word

@[ext] structure State (V : Type) where
  eax : Word
  ecx : Word
  edx : Word
  ebx : Word
  esp : Word
  ebp : Word
  esi : Word
  edi : Word
  flags : Flags
  mem : Mem
  vars : V
  pc : Word

/-- `[base + index * 2^shift + disp]` -/
structure Ptr where
  base : Reg
  index : Option (Reg × Nat)
  disp : Word
  deriving DecidableEq

/-- `[b + d]` -/
def ptr (b : Reg) (d : Word) : Ptr := ⟨b, none, d⟩

/-- `[b + i * 2^k]` -/
def ptrx (b i : Reg) (k : Nat) : Ptr := ⟨b, some (i, k), 0⟩

inductive Opnd (C : Type) where
  | reg (r : Reg)
  | imm (v : Word)
  | mem (p : Ptr)
  | var (c : C)
  | field (r : Reg) (c : C)
  deriving DecidableEq

namespace State
variable {V : Type}

def get (s : State V) : Reg → Word
  | .eax => s.eax
  | .ecx => s.ecx
  | .edx => s.edx
  | .ebx => s.ebx
  | .esp => s.esp
  | .ebp => s.ebp
  | .esi => s.esi
  | .edi => s.edi

def set (s : State V) (r : Reg) (v : Word) : State V :=
  match r with
  | .eax => { s with eax := v }
  | .ecx => { s with ecx := v }
  | .edx => { s with edx := v }
  | .ebx => { s with ebx := v }
  | .esp => { s with esp := v }
  | .ebp => { s with ebp := v }
  | .esi => { s with esi := v }
  | .edi => { s with edi := v }

def get8 (s : State V) : Reg8 → Byte
  | .al => s.eax.extractLsb' 0 8
  | .cl => s.ecx.extractLsb' 0 8
  | .ah => s.eax.extractLsb' 8 8

def set8 (s : State V) (r : Reg8) (v : Byte) : State V :=
  match r with
  | .al => { s with eax := s.eax.extractLsb' 8 24 ++ v }
  | .cl => { s with ecx := s.ecx.extractLsb' 8 24 ++ v }
  | .ah => { s with eax := s.eax.extractLsb' 16 16 ++ (v ++ s.eax.extractLsb' 0 8) }

/-- the effective address -/
def ea (s : State V) (p : Ptr) : Word :=
  match p.index with
  | none => s.get p.base + p.disp
  | some (i, k) => s.get p.base + (s.get i <<< k) + p.disp

/-- `esp` one word down, the value in the new word -/
def push (s : State V) (v : Word) : State V :=
  { s with esp := s.esp - 4, mem := s.mem.write32 (s.esp - 4) v }

/-- the word on top of the stack -/
def top (s : State V) : Word := s.mem.read32 s.esp

theorem get_set_ne (s : State V) {r r' : Reg} (v : Word) (h : r' ≠ r) :
    (s.set r v).get r' = s.get r' := by
  cases r <;> cases r' <;> first | rfl | exact absurd rfl h

theorem set_mem (s : State V) (r : Reg) (v : Word) : (s.set r v).mem = s.mem := by
  cases r <;> rfl

theorem set_vars (s : State V) (r : Reg) (v : Word) : (s.set r v).vars = s.vars := by
  cases r <;> rfl

variable {C : Type} [Cells C V]

/-- a 32-bit operand read; `none` is a fault -/
def load (s : State V) : Opnd C → Option Word
  | .reg r => some (s.get r)
  | .imm v => some v
  | .mem p => some (s.mem.read32 (s.ea p))
  | .var c => some (Cells.get c s.vars)
  | .field r c => if s.get r = Cells.ptr c s.vars then some (Cells.get c s.vars) else none

/-- a 32-bit operand write; `none` is a fault -/
def store (s : State V) : Opnd C → Word → Option (State V)
  | .reg r, v => some (s.set r v)
  | .imm _, _ => none
  | .mem p, v => some { s with mem := s.mem.write32 (s.ea p) v }
  | .var c, v => some { s with vars := Cells.set c v s.vars }
  | .field r c, v =>
    if s.get r = Cells.ptr c s.vars then some { s with vars := Cells.set c v s.vars } else none

section
variable (s : State V) (r : Reg) (c : C) (p : Ptr) (v : Word)

theorem load_reg : s.load (C := C) (.reg r) = some (s.get r) := rfl
theorem load_imm : s.load (C := C) (.imm v) = some v := rfl
theorem load_var : s.load (.var c) = some (Cells.get c s.vars) := rfl

theorem load_field (h : s.get r = Cells.ptr c s.vars) :
    s.load (.field r c) = some (Cells.get c s.vars) := if_pos h

theorem store_reg : s.store (C := C) (.reg r) v = some (s.set r v) := rfl

theorem store_field (h : s.get r = Cells.ptr c s.vars) :
    s.store (.field r c) v = some { s with vars := Cells.set c v s.vars } := if_pos h

end

end State

/-! ## flags -/

/-- parity of the low byte -/
def parity (r : Word) : Bool :=
  !(r.getLsbD 0 ^^ r.getLsbD 1 ^^ r.getLsbD 2 ^^ r.getLsbD 3 ^^ r.getLsbD 4 ^^ r.getLsbD 5 ^^
    r.getLsbD 6 ^^ r.getLsbD 7)

/-- flags of a result without carry and overflow -/
def Flags.logic (f : Flags) (r : Word) : Flags :=
  { f with cf := false, pf := parity r, zf := r == 0, sf := r.msb, of := false }

def Flags.add (f : Flags) (a b : Word) : Flags :=
  { f.logic (a + b) with cf := BitVec.uaddOverflow a b, of := BitVec.saddOverflow a b }

def Flags.sub (f : Flags) (a b : Word) : Flags :=
  { f.logic (a - b) with cf := BitVec.usubOverflow a b, of := BitVec.ssubOverflow a b }

/-- flags of an 8-bit subtraction -/
def Flags.sub8 (f : Flags) (a b : Byte) : Flags :=
  { f with cf := BitVec.usubOverflow a b, pf := parity ((a - b).setWidth 32), zf := a - b == 0,
           sf := (a - b).msb, of := BitVec.ssubOverflow a b }

inductive Cond where
  | e | ne | b | be | a | ae | l | le | g | ge | p
  deriving DecidableEq, Repr

def Cond.holds (f : Flags) : Cond → Bool
  | .e => f.zf
  | .ne => !f.zf
  | .b => f.cf
  | .be => f.cf || f.zf
  | .a => !(f.cf || f.zf)
  | .ae => !f.cf
  | .l => f.sf != f.of
  | .le => f.zf || (f.sf != f.of)
  | .g => !(f.zf || (f.sf != f.of))
  | .ge => f.sf == f.of
  | .p => f.pf

/-! ### conditions after `cmp a, b` and `test a, a` -/

section
variable (f : Flags) (a b : Word)

theorem sub_zf : (f.sub a b).zf = decide (a = b) := by
  show (a - b == 0) = decide (a = b)
  rw [Bool.eq_iff_iff, beq_iff_eq, decide_eq_true_iff]
  constructor
  · intro h
    have := congrArg (· + b) h
    simpa using this
  · rintro rfl
    simp

theorem sub_cf : (f.sub a b).cf = decide (a.toNat < b.toNat) := by
  show BitVec.usubOverflow a b = _
  simp [BitVec.usubOverflow]

theorem sub_sf_of : ((f.sub a b).sf != (f.sub a b).of) = decide (a.toInt < b.toInt) := by
  show ((a - b).msb != BitVec.ssubOverflow a b) = _
  have hm : (a - b).msb = decide ((a - b).toInt < 0) := BitVec.msb_eq_toInt
  have ha := BitVec.toInt_lt (x := a)
  have ha' := BitVec.le_toInt (x := a)
  have hb := BitVec.toInt_lt (x := b)
  have hb' := BitVec.le_toInt (x := b)
  rw [hm, BitVec.toInt_sub, BitVec.ssubOverflow]
  have h := Int.bmod_def (a.toInt - b.toInt) (2^32)
  grind

theorem cmp_e : Cond.e.holds (f.sub a b) = decide (a = b) := sub_zf f a b

theorem cmp_ne : Cond.ne.holds (f.sub a b) = !decide (a = b) := by
  show (!(f.sub a b).zf) = _
  rw [sub_zf]

theorem cmp_b : Cond.b.holds (f.sub a b) = decide (a.toNat < b.toNat) := sub_cf f a b

theorem cmp_ae : Cond.ae.holds (f.sub a b) = decide (b.toNat ≤ a.toNat) := by
  show (!(f.sub a b).cf) = _
  rw [sub_cf, ← decide_not, decide_eq_decide]
  omega

theorem cmp_be : Cond.be.holds (f.sub a b) = decide (a.toNat ≤ b.toNat) := by
  show ((f.sub a b).cf || (f.sub a b).zf) = _
  rw [sub_cf, sub_zf, ← Bool.decide_or, decide_eq_decide, ← BitVec.toNat_inj]
  omega

theorem cmp_a : Cond.a.holds (f.sub a b) = decide (b.toNat < a.toNat) := by
  show (!((f.sub a b).cf || (f.sub a b).zf)) = _
  rw [sub_cf, sub_zf, ← Bool.decide_or, ← decide_not, decide_eq_decide, ← BitVec.toNat_inj]
  omega

theorem cmp_l : Cond.l.holds (f.sub a b) = decide (a.toInt < b.toInt) := sub_sf_of f a b

theorem cmp_ge : Cond.ge.holds (f.sub a b) = decide (b.toInt ≤ a.toInt) := by
  have h := sub_sf_of f a b
  show ((f.sub a b).sf == (f.sub a b).of) = _
  rw [Bool.beq_eq_decide_eq]
  grind

theorem cmp_le : Cond.le.holds (f.sub a b) = decide (a.toInt ≤ b.toInt) := by
  show ((f.sub a b).zf || ((f.sub a b).sf != (f.sub a b).of)) = _
  rw [sub_sf_of, sub_zf, ← Bool.decide_or, decide_eq_decide, ← BitVec.toInt_inj]
  omega

theorem cmp_g : Cond.g.holds (f.sub a b) = decide (b.toInt < a.toInt) := by
  show (!((f.sub a b).zf || ((f.sub a b).sf != (f.sub a b).of))) = _
  rw [sub_sf_of, sub_zf, ← Bool.decide_or, ← decide_not, decide_eq_decide, ← BitVec.toInt_inj]
  omega

theorem test_e : Cond.e.holds (f.logic (a &&& a)) = decide (a = 0) := by
  show (a &&& a == 0) = _
  rw [BitVec.and_self]
  exact Bool.beq_eq_decide_eq a 0

theorem test_ne : Cond.ne.holds (f.logic (a &&& a)) = !decide (a = 0) := by
  have h := test_e f a
  show (!Cond.e.holds (f.logic (a &&& a))) = _
  rw [h]

theorem test_l : Cond.l.holds (f.logic (a &&& a)) = decide (a.toInt < 0) := by
  show ((a &&& a).msb != false) = _
  rw [BitVec.and_self, BitVec.msb_eq_toInt]
  simp

end

end X86
