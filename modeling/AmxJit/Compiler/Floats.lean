import AmxJit.Compiler.InPlace

/-!
# Natives of float.inc compiled in place

The x87 unit is a parameter of the machine; the code passes operands to it, and its results on.

* `FloatNative`        the natives of float.inc that `EmitIntrinsic` knows, with what they make of the
                       results of the x87 unit;
* `Computes`           PRI, the flags, the x87 unit and the cell below STK are new;
* `computes_line`      the code that ends by storing a value; `computes_floatcmp`: the comparison;
* `FollowsIEEE`        the x87 unit sets its condition codes as documented;
* `float_result`       the code in place of the call leaves the native's result in PRI, and the
                       comparison is that of the numbers.
-/

namespace AmxJit
open X86 Trans Reg

inductive FloatNative where
  | float | floatabs | floatadd | floatsub | floatmul | floatdiv | floatsqroot | floatcmp

/-- the x87 unit behind an instruction with the operand `x` -/
def Vars.fpu (v : Vars) (op : FpuOp) (x : Word) : Vars := (Cells.fpu Cell op x v).1

/-- the value that the instruction delivers -/
def Vars.fpuValue (v : Vars) (op : FpuOp) (x : Word) : Word := (Cells.fpu Cell op x v).2

namespace FloatNative

def all : List FloatNative :=
  [.float, .floatabs, .floatadd, .floatsub, .floatmul, .floatdiv, .floatsqroot, .floatcmp]

def name : FloatNative → String
  | .float => "float"
  | .floatabs => "floatabs"
  | .floatadd => "floatadd"
  | .floatsub => "floatsub"
  | .floatmul => "floatmul"
  | .floatdiv => "floatdiv"
  | .floatsqroot => "floatsqroot"
  | .floatcmp => "floatcmp"

/-- the code of the table `intrinsics` -/
def code (cip : Word) : FloatNative → Buffer
  | .float => asm float'
  | .floatabs => asm AmxJit.floatabs
  | .floatadd => asm AmxJit.floatadd
  | .floatsub => asm AmxJit.floatsub
  | .floatmul => asm AmxJit.floatmul
  | .floatdiv => asm AmxJit.floatdiv
  | .floatsqroot => asm AmxJit.floatsqroot
  | .floatcmp => AmxJit.floatcmp cip

/-- the x87 unit with the first operand, and behind an operation with the second one -/
def binary (s : Machine) (op : FpuOp) : Vars :=
  (s.vars.fpu .fld (CoreNative.arg s 1)).fpu op (CoreNative.arg s 2)

/-- the x87 unit with the operand, and behind an operation on it -/
def unary (s : Machine) (op : FpuOp) : Vars :=
  (s.vars.fpu .fld (CoreNative.arg s 1)).fpu op s.top

/-- the x87 unit when the operation is done -/
def operated (s : Machine) : FloatNative → Vars
  | .float => s.vars.fpu .fild (CoreNative.arg s 1)
  | .floatabs => unary s .fabs
  | .floatadd => binary s .fadd
  | .floatsub => binary s .fsub
  | .floatmul => binary s .fmul
  | .floatdiv => binary s .fdiv
  | .floatsqroot => unary s .fsqrt
  | .floatcmp =>
    ((s.vars.fpu .fld (CoreNative.arg s 2)).fpu .fld (CoreNative.arg s 1)).fpu .fcompp s.top

/-- what `floatcmp` makes of the status word -/
def compared (status : Word) : Word :=
  if status.getLsbD 10 ≠ status.getLsbD 14 then 0 else if status.getLsbD 8 then -1 else 1

/-- what the native returns: the value that is taken from the x87 unit by way of the cell below STK,
or what the comparison says -/
def result (s : Machine) : FloatNative → Word
  | .floatcmp => compared ((operated s .floatcmp).fpuValue .fnstsw 0)
  | n => (operated s n).fpuValue .fstp (s.mem.read32 (s.esp - 4))

/-- what may be returned -/
def MayReturn (v : Word) : FloatNative → Prop
  | .floatcmp => v = 0 ∨ v = 1 ∨ v = -1
  | _ => True

end FloatNative

section
variable {r : AmxRef} {a : Word}

theorem float_mem (cip : Word) (n : FloatNative) : (n.name, n.code cip) ∈ intrinsics cip := by
  cases n <;> simp [intrinsics, FloatNative.name, FloatNative.code]

theorem emitIntrinsic_float {n : FloatNative} (h : r.nameIs a (nameBytes n.name) = true)
    (cip : Word) : emitIntrinsic r a cip = some (n.code cip) :=
  emitIntrinsic_mem (float_mem cip n) h

theorem compared_cases (w : Word) :
    FloatNative.compared w = 0 ∨ FloatNative.compared w = 1 ∨ FloatNative.compared w = -1 := by
  unfold FloatNative.compared
  by_cases h : w.getLsbD 10 ≠ w.getLsbD 14
  · rw [if_pos h]
    exact .inl rfl
  · rw [if_neg h]
    by_cases h8 : w.getLsbD 8 = true
    · rw [if_pos h8]
      exact .inr (.inr rfl)
    · rw [if_neg h8]
      exact .inr (.inl rfl)

theorem mayReturn_result (s : Machine) (n : FloatNative) : n.MayReturn (n.result s) := by
  cases n with
  | floatcmp => exact compared_cases _
  | _ => trivial

end

/-! ## the code -/

section
variable {jit : Jit} {T : Word → Prop} {W : Set Word} {s : Machine} {cip e v : Word}

/-- PRI, the flags, the x87 unit and the cell below STK are new; the code stays between addresses
with `T`, and writes to `W` only -/
def Computes (jit : Jit) (T : Word → Prop) (W : Set Word) (s : Machine) (v e : Word) : Prop :=
  Must (jit.Within T W) (fun t => ∃ (f : Flags) (m : Mem) (x : Nat),
    Set.EqOn m s.mem (bytes (s.esp - 4) 4)ᶜ ∧
    t = { s with eax := v, flags := f, mem := m, vars := { s.vars with fpuState := x }, pc := e }) s

theorem fpu_run (adr : Label → Option Word) (op : FpuOp) (p : Ptr) (s : Machine) (h : op ≠ .fstp) :
    exec adr (.fpu op p : Instr Cell Label) s =
      some { s with vars := s.vars.fpu op (s.mem.read32 (s.ea p)) } := by
  show some { s with
    vars := s.vars.fpu op (s.mem.read32 (s.ea p))
    mem := if op = FpuOp.fstp then s.mem.write32 (s.ea p)
      (s.vars.fpuValue op (s.mem.read32 (s.ea p))) else s.mem } = _
  rw [if_neg h]

theorem fpuReg_run (adr : Label → Option Word) (op : FpuOp) (s : Machine) (h : op ≠ .fstp) :
    exec adr (fpuReg op) s = some { s with vars := s.vars.fpu op s.top } := by
  have hea : s.ea (ptr esp 0) = s.esp := BitVec.add_zero _
  unfold fpuReg
  rw [fpu_run adr op _ s h, hea]
  rfl

/-- the value on the x87 stack is stored below STK, and loaded -/
theorem fpuResult_run (adr : Label → Option Word) (s : Machine) :
    let v := s.vars.fpuValue .fstp (s.mem.read32 (s.esp - 4))
    ∃ f, runSeq adr fpuResult s = some { s with
      eax := v
      flags := f
      mem := s.mem.write32 (s.esp - 4) v
      vars := s.vars.fpu .fstp (s.mem.read32 (s.esp - 4)) } := by
  intro v
  let u : Machine := { s with esp := s.esp - 4, flags := s.flags.sub s.esp 4 }
  have hea (t : Machine) : t.ea (ptr esp 0) = t.esp := BitVec.add_zero _
  have hsub : exec adr (.sub esp (4 : Word) : Instr Cell Label) s = some u := rfl
  have hstp : exec adr (.fpu .fstp (ptr esp 0) : Instr Cell Label) u = some { u with
      mem := s.mem.write32 (s.esp - 4) v
      vars := s.vars.fpu .fstp (s.mem.read32 (s.esp - 4)) } := by
    show some { u with
      vars := s.vars.fpu .fstp (s.mem.read32 (u.ea (ptr esp 0)))
      mem := if FpuOp.fstp = FpuOp.fstp then s.mem.write32 (u.ea (ptr esp 0))
        (s.vars.fpuValue .fstp (s.mem.read32 (u.ea (ptr esp 0)))) else s.mem } = _
    rw [hea, if_pos rfl]
  have hmov (t : Machine) : exec adr (.mov eax (ptr esp 0) : Instr Cell Label) t =
      some { t with eax := t.mem.read32 t.esp } := by
    show some { t with eax := t.mem.read32 (t.ea (ptr esp 0)) } = _
    rw [hea]
  unfold fpuResult
  rw [runSeq_cons, hsub, Option.bind_some, runSeq_cons, hstp, Option.bind_some, runSeq_cons, hmov,
    Option.bind_some]
  have hread : (s.mem.write32 (s.esp - 4) v).read32 (s.esp - 4) = v := read32_write32_self _ _ _
  refine ⟨(s.flags.sub s.esp 4).add (s.esp - 4) 4, ?_⟩
  show some { s with
    eax := (s.mem.write32 (s.esp - 4) v).read32 (s.esp - 4)
    esp := s.esp - 4 + 4
    flags := (s.flags.sub s.esp 4).add (s.esp - 4) 4
    mem := s.mem.write32 (s.esp - 4) v
    vars := s.vars.fpu .fstp (s.mem.read32 (s.esp - 4)) } = _
  rw [hread, BitVec.sub_add_cancel]

/-- the code that ends by storing a value -/
theorem computes_line (is : Code) (hT : jit.Closed T) (hs : T s.pc) {n : Nat} {x : Vars}
    (hseg : Seg jit.image.fetch jit.image.addr s.pc (asm (is ++ fpuResult)) e)
    (his : is.countP Instr.stores = 0) (hx : x = { s.vars with fpuState := n })
    (hrun : runSeq jit.image.addr is s = some { s with vars := x })
    (hcell : bytes (s.esp - 4) 4 ⊆ W) :
    Computes jit T W s (x.fpuValue .fstp (s.mem.read32 (s.esp - 4))) e := by
  set v := x.fpuValue .fstp (s.mem.read32 (s.esp - 4)) with hv
  obtain ⟨f, hres⟩ := fpuResult_run jit.image.addr { s with vars := x }
  have hline : runSeq jit.image.addr (is ++ fpuResult) s = some { s with
      eax := v, flags := f, mem := s.mem.write32 (s.esp - 4) v
      vars := x.fpu .fstp (s.mem.read32 (s.esp - 4)) } := by
    rw [runSeq_append, hrun, Option.bind_some]
    exact hres
  have honce : (is ++ fpuResult).countP Instr.stores ≤ 1 := by
    rw [List.countP_append, his]
    exact Nat.le_of_ble_eq_true rfl
  have hmem : Set.EqOn (s.mem.write32 (s.esp - 4) v) s.mem (bytes (s.esp - 4) 4)ᶜ :=
    eqOn_write v disjoint_compl_right
  apply Jit.must_line (s := s) hT hs hseg hline
  · exact Jit.inside_once honce hline (hmem.mono (Set.compl_subset_compl.mpr hcell))
  · intro _
    refine .now ⟨f, s.mem.write32 (s.esp - 4) v,
      (x.fpu .fstp (s.mem.read32 (s.esp - 4))).fpuState, hmem, ?_⟩
    rw [hx]
    rfl

/-! ## the comparison -/

/-- AH, when the status word is in AX -/
theorem status_get (h : BitVec 16) (w : Word) {k : Nat} (hk : k < 8) :
    ((h ++ w.extractLsb' 0 16 : Word).extractLsb' 8 8).getLsbD k = w.getLsbD (8 + k) := by
  have hk' : 8 + k < 16 := by omega
  simp only [BitVec.getLsbD_extractLsb', BitVec.getLsbD_append]
  simp [hk, hk']

/-- `test ah, 0x44`: PF tells that C2 and C3 are the same -/
theorem test_equal (b : Byte) :
    parity ((b &&& 0x44).setWidth 32) = (b.getLsbD 2 == b.getLsbD 6) := by
  unfold parity
  simp only [BitVec.getLsbD_setWidth, BitVec.getLsbD_and]
  cases b.getLsbD 2 <;> cases b.getLsbD 6 <;> simp

/-- `test ah, 0x01`: ZF tells that C0 is clear -/
theorem test_less : ∀ b : Byte, ((b &&& 0x01).setWidth 32 == (0 : Word)) = !b.getLsbD 0 := by
  decide

/-- the comparison; the conditions C0, C2 and C3 are in AH -/
theorem computes_floatcmp (hT : jit.Closed T) (hs : T s.pc)
    (hseg : Seg jit.image.fetch jit.image.addr s.pc (floatcmp cip) e) :
    Computes jit T W s (FloatNative.result s .floatcmp) e := by
  unfold floatcmp at hseg
  simp only [List.append_assoc] at hseg
  obtain ⟨x1, hcmp, hseg⟩ := seg_append.mp hseg
  obtain ⟨x2, hjp, hseg⟩ := seg_append.mp hseg
  obtain ⟨x3, hequal, hseg⟩ := seg_append.mp hseg
  obtain ⟨x4, hjmp, hseg⟩ := seg_append.mp hseg
  obtain ⟨x5, ⟨hother, hx⟩, hseg⟩ := seg_append.mp hseg
  obtain rfl : x4 = x5 := hx
  obtain ⟨x6, htest, hseg⟩ := seg_append.mp hseg
  obtain ⟨x7, hjne, hseg⟩ := seg_append.mp hseg
  obtain ⟨x8, hgreater, hseg⟩ := seg_append.mp hseg
  obtain ⟨x9, hjmp', hseg⟩ := seg_append.mp hseg
  obtain ⟨x10, ⟨hless, hx⟩, hseg⟩ := seg_append.mp hseg
  obtain rfl : x9 = x10 := hx
  obtain ⟨x11, hlesser, hexit, hx⟩ := seg_append.mp hseg
  obtain rfl : x11 = e := hx
  have h1 := closed_asm hT hs hcmp
  have h2 := closed_emit hT h1 hjp
  have h3 := closed_asm hT h2 hequal
  have h4 := closed_emit hT h3 hjmp
  have h6 := closed_asm hT h4 htest
  have h7 := closed_emit hT h6 hjne
  have h8 := closed_asm hT h7 hgreater
  have h9 := closed_emit hT h8 hjmp'
  have h11 := closed_asm hT h9 hlesser
  set w := (FloatNative.operated s .floatcmp).fpuValue .fnstsw 0 with hw
  set x := (FloatNative.operated s .floatcmp).fpu .fnstsw 0 with hx
  set y : Word := s.eax.extractLsb' 16 16 ++ w.extractLsb' 0 16 with hy
  set b : Byte := y.extractLsb' 8 8 with hb
  let f1 : Flags := { s.flags.logic ((b &&& 0x44).setWidth 32) with sf := (b &&& 0x44).msb }
  let f2 : Flags := { f1.logic ((b &&& 0x01).setWidth 32) with sf := (b &&& 0x01).msb }
  have hrun1 : runSeq jit.image.addr ([.fpu .fld (ptr esp 8), .fpu .fld (ptr esp 4),
      fpuReg .fcompp, .fnstsw, .test8 .ah 0x44] : Code) s =
      some { s with eax := y, flags := f1, vars := x } := by
    rw [runSeq_cons, fpu_run _ _ _ _ (by decide), Option.bind_some, runSeq_cons,
      fpu_run _ _ _ _ (by decide), Option.bind_some, runSeq_cons, fpuReg_run _ _ _ (by decide),
      Option.bind_some]
    rfl
  have hp : Cond.p.holds f1 = (w.getLsbD 10 == w.getLsbD 14) := by
    show parity ((b &&& 0x44).setWidth 32) = _
    rw [test_equal, hb, hy, status_get _ _ (by decide), status_get _ _ (by decide)]
  have hne : Cond.ne.holds f2 = w.getLsbD 8 := by
    show (!((b &&& 0x01).setWidth 32 == (0 : Word))) = _
    rw [test_less, Bool.not_not, hb, hy, status_get _ _ (by decide)]
  -- whatever has been compared, the code ends behind the last label
  have hend (v : Word) (f : Flags) (hv : v = FloatNative.compared w) : Must (jit.Within T W)
      (fun t => ∃ (f : Flags) (m : Mem) (n : Nat), Set.EqOn m s.mem (bytes (s.esp - 4) 4)ᶜ ∧
        t = { s with
          eax := FloatNative.result s .floatcmp, flags := f, mem := m
          vars := { s.vars with fpuState := n }, pc := x11 })
      { s with eax := v, flags := f, vars := x, pc := x11 } := by
    refine .now ⟨f, s.mem, x.fpuState, fun _ _ => rfl, ?_⟩
    rw [hv]
    rfl
  apply Jit.must_line (s := s) hT hs hcmp hrun1 (Jit.inside_quiet rfl)
  intro _
  apply within_branch (s := { s with eax := y, flags := f1, vars := x, pc := x1 }) hT h1 hjp
  · intro hc hjump
    have hsame : ¬ w.getLsbD 10 ≠ w.getLsbD 14 := not_not_intro (beq_iff_eq.mp (hp.symm.trans hc))
    apply within_jumpsTo h1 hjump hother h4
    apply Jit.must_line (s := { s with eax := y, flags := f1, vars := x, pc := x4 })
      (t := { s with eax := y, flags := f2, vars := x, pc := x4 }) hT h4 htest rfl
      (Jit.inside_quiet rfl)
    intro _
    apply within_branch (s := { s with eax := y, flags := f2, vars := x, pc := x6 }) hT h6 hjne
    · intro hc' hjump'
      apply within_jumpsTo h6 hjump' hless h9
      apply Jit.must_line (s := { s with eax := y, flags := f2, vars := x, pc := x9 })
        (t := { s with eax := -1, flags := f2, vars := x, pc := x9 }) hT h9 hlesser rfl
        (Jit.inside_quiet rfl)
      intro _
      apply hend
      unfold FloatNative.compared
      rw [if_neg hsame, if_pos (hne.symm.trans hc')]
    · intro hc' _
      apply Jit.must_line (s := { s with eax := y, flags := f2, vars := x, pc := x7 })
        (t := { s with eax := 1, flags := f2, vars := x, pc := x7 }) hT h7 hgreater rfl
        (Jit.inside_quiet rfl)
      intro _
      apply within_jumpsTo h8 (jumpsTo_jmp hjmp') hexit h11
      apply hend
      unfold FloatNative.compared
      rw [if_neg hsame, if_neg (Bool.eq_false_iff.mp (hne.symm.trans hc'))]
  · intro hc _
    have hdiff : w.getLsbD 10 ≠ w.getLsbD 14 := beq_eq_false_iff_ne.mp (hp.symm.trans hc)
    apply Jit.must_line (s := { s with eax := y, flags := f1, vars := x, pc := x2 })
      (t := { s with eax := 0, flags := f1.logic 0, vars := x, pc := x2 }) hT h2 hequal ?_
      (Jit.inside_quiet rfl)
    · intro _
      apply within_jumpsTo h3 (jumpsTo_jmp hjmp) hexit h11
      apply hend
      unfold FloatNative.compared
      rw [if_pos hdiff]
    · show some { s with
        eax := y ^^^ y, flags := f1.logic (y ^^^ y), vars := x, pc := x2 } = _
      rw [BitVec.xor_self]
      rfl

/-! ## all of them -/

theorem computes_unary (hT : jit.Closed T) (hs : T s.pc) {op : FpuOp} (hop : op ≠ .fstp)
    (hseg : Seg jit.image.fetch jit.image.addr s.pc
      (asm (.fpu .fld (ptr esp 4) :: fpuReg op :: fpuResult)) e) (hcell : bytes (s.esp - 4) 4 ⊆ W) :
    Computes jit T W s ((FloatNative.unary s op).fpuValue .fstp (s.mem.read32 (s.esp - 4))) e := by
  apply computes_line [.fpu .fld (ptr esp 4), fpuReg op] hT hs hseg ?_ rfl ?_ hcell
  · simp [Instr.stores, fpuReg, hop]
  · rw [runSeq_cons, fpu_run _ _ _ _ (by decide), Option.bind_some, runSeq_cons,
      fpuReg_run _ _ _ hop]
    rfl

theorem computes_binary (hT : jit.Closed T) (hs : T s.pc) {op : FpuOp} (hop : op ≠ .fstp)
    (hseg : Seg jit.image.fetch jit.image.addr s.pc (asm (floatBinary op)) e)
    (hcell : bytes (s.esp - 4) 4 ⊆ W) :
    Computes jit T W s ((FloatNative.binary s op).fpuValue .fstp (s.mem.read32 (s.esp - 4))) e := by
  apply computes_line [.fpu .fld (ptr esp 4), .fpu op (ptr esp 8)] hT hs hseg ?_ rfl ?_ hcell
  · simp [Instr.stores, hop]
  · rw [runSeq_cons, fpu_run _ _ _ _ (by decide), Option.bind_some, runSeq_cons,
      fpu_run _ _ _ _ hop]
    rfl

theorem computes_float (hT : jit.Closed T) (hs : T s.pc) (n : FloatNative)
    (hseg : Seg jit.image.fetch jit.image.addr s.pc (n.code cip) e)
    (hcell : bytes (s.esp - 4) 4 ⊆ W) : Computes jit T W s (n.result s) e := by
  cases n with
  | float =>
    apply computes_line [.fpu .fild (ptr esp 4)] hT hs hseg rfl rfl ?_ hcell
    rw [runSeq_cons, fpu_run _ _ _ _ (by decide)]
    rfl
  | floatabs | floatsqroot => exact computes_unary hT hs (by decide) hseg hcell
  | floatadd | floatsub | floatmul | floatdiv => exact computes_binary hT hs (by decide) hseg hcell
  | floatcmp => exact computes_floatcmp hT hs hseg

end

/-! ## numbers -/

/-- the exponent is all ones, the fraction is not zero -/
def isNaN (x : Word) : Bool := (0x7f800000 : Word).ult (x &&& 0x7fffffff)

/-- sign and magnitude, which order the numbers of single precision -/
def floatKey (x : Word) : Int :=
  if x.msb then -((x &&& 0x7fffffff).toNat : Int) else ((x &&& 0x7fffffff).toNat : Int)

/-- the comparison of numbers; there is none with what is not a number -/
def floatOrder (a b : Word) : Option Ordering :=
  if isNaN a || isNaN b then none else some (compare (floatKey a) (floatKey b))

/-- the conditions C0, C2 and C3 behind a comparison -/
def conditions : Option Ordering → Bool × Bool × Bool
  | some .gt => (false, false, false)
  | some .lt => (true, false, false)
  | some .eq => (false, false, true)
  | none => (true, true, true)

/-- The x87 unit, in the state that it is in, sets the conditions as documented: they are in the
bits 8, 10 and 14 of the status word. -/
def Vars.FollowsIEEE (v : Vars) : Prop :=
  ∀ a b x : Word, let w := (((v.fpu .fld b).fpu .fld a).fpu .fcompp x).fpuValue .fnstsw 0
    (w.getLsbD 8, w.getLsbD 10, w.getLsbD 14) = conditions (floatOrder a b)

/-- what `floatcmp` is to return -/
def comparison : Option Ordering → Word
  | some .gt => 1
  | some .eq => 0
  | some .lt => -1
  | none => -1

theorem compared_conditions {w : Word} {o : Option Ordering}
    (h : (w.getLsbD 8, w.getLsbD 10, w.getLsbD 14) = conditions o) :
    FloatNative.compared w = comparison o := by
  obtain ⟨h8, h10, h14⟩ : w.getLsbD 8 = (conditions o).1 ∧ w.getLsbD 10 = (conditions o).2.1 ∧
      w.getLsbD 14 = (conditions o).2.2 := by
    rw [← h]
    exact ⟨rfl, rfl, rfl⟩
  unfold FloatNative.compared
  rw [h8, h10, h14]
  cases o with
  | none => rfl
  | some o => cases o <;> rfl

/-- the native of float.inc that is compiled in place of the call -/
def floatNative (r : AmxRef) (i : Instruction) : Option FloatNative :=
  (calledName r i).bind fun name => FloatNative.all.find? fun n => r.nameIs name (nameBytes n.name)

theorem floatNative_name {r : AmxRef} {i : Instruction} {n : FloatNative}
    (h : floatNative r i = some n) :
    ∃ name, calledName r i = some name ∧ r.nameIs name (nameBytes n.name) = true := by
  obtain ⟨name, hname, hfind⟩ := Option.bind_eq_some_iff.mp h
  exact ⟨name, hname, List.find?_some (p := fun n : FloatNative => r.nameIs name (nameBytes n.name))
    hfind⟩

/-- **The code in place of a native of float.inc** leaves in PRI what the x87 unit delivers.  The
x87 unit, the flags and the cell below STK aside, nothing else is changed, and the next
instruction comes next.  `floatcmp` compares the numbers, if the x87 unit does. -/
theorem float_result (jit : Jit) (i : Instruction) (hi : i ∈ jit.instrs) (name : Word)
    (hcall : calledName jit.amx i = some name) (n : FloatNative)
    (hname : jit.amx.nameIs name (nameBytes n.name) = true) (s : Machine)
    (hpc : jit.native i.address = some s.pc) :
    ∃ e, (∀ j ∈ jit.instrs, j.address = i.next → jit.At j e) ∧
      Must jit.Step (fun t => ∃ (f : Flags) (m : Mem) (x : Nat),
        Set.EqOn m s.mem (bytes (s.esp - 4) 4)ᶜ ∧
        t = { s with
          eax := n.result s, flags := f, mem := m, vars := { s.vars with fpuState := x }, pc := e }) s ∧
      (n = .floatcmp → s.vars.FollowsIEEE →
        n.result s = comparison (floatOrder (CoreNative.arg s 1) (CoreNative.arg s 2))) := by
  obtain ⟨b, e, hcode, hseg, hnext⟩ := Jit.code_at hi hpc
  rw [compileInstr_intrinsic hcall (emitIntrinsic_float hname i.address) hcode] at hseg
  refine ⟨e, hnext, ?_, ?_⟩
  · exact Jit.must_of_within (W := Set.univ)
      (computes_float jit.closed_true trivial n hseg (Set.subset_univ _))
  · rintro rfl hieee
    exact compared_conditions (hieee _ _ s.top)

/-- the status word with the conditions -/
def statusWord (o : Option Ordering) : Nat :=
  (conditions o).1.toNat * 2^8 + (conditions o).2.1.toNat * 2^10 + (conditions o).2.2.toNat * 2^14

theorem statusWord_conditions (o : Option Ordering) : let w : Word := BitVec.ofNat 32 (statusWord o)
    (w.getLsbD 8, w.getLsbD 10, w.getLsbD 14) = conditions o := by
  cases o with
  | none => decide
  | some o => cases o <;> decide

/-- an x87 unit that can only load and compare; its state is the stack, or the status word -/
def compareUnit : FpuOp → Word → Nat → Nat × Word
  | .fld, x, st => (st * 2^32 + x.toNat, 0)
  | .fcompp, _, st =>
    (statusWord (floatOrder (BitVec.ofNat 32 st) (BitVec.ofNat 32 (st / 2^32))), 0)
  | .fnstsw, _, st => (st, BitVec.ofNat 32 st)
  | _, _, st => (st, 0)

theorem compareUnit_follows (v : Vars) (hstep : v.fpuStep = compareUnit) (h0 : v.fpuState = 0) :
    v.FollowsIEEE := by
  intro a b x w
  have ha : BitVec.ofNat 32 ((0 * 2^32 + b.toNat) * 2^32 + a.toNat) = a := by
    rw [BitVec.ofNat_add, BitVec.ofNat_toNat, BitVec.setWidth_eq]
    rw [show BitVec.ofNat 32 ((0 * 2^32 + b.toNat) * 2^32) = 0 by
      apply BitVec.eq_of_toNat_eq
      rw [BitVec.toNat_ofNat, Nat.mul_mod_left]
      rfl]
    exact BitVec.zero_add a
  have hb : BitVec.ofNat 32 (((0 * 2^32 + b.toNat) * 2^32 + a.toNat) / 2^32) = b := by
    have hlt := a.isLt
    rw [show ((0 * 2^32 + b.toNat) * 2^32 + a.toNat) / 2^32 = b.toNat by omega,
      BitVec.ofNat_toNat, BitVec.setWidth_eq]
  have hw : w = BitVec.ofNat 32 (statusWord (floatOrder a b)) := by
    have hraw : w = (v.fpuStep .fnstsw 0 (v.fpuStep .fcompp x
      (v.fpuStep .fld a (v.fpuStep .fld b v.fpuState).1).1).1).2 := rfl
    rw [hraw, hstep, h0]
    show BitVec.ofNat 32 (statusWord (floatOrder (BitVec.ofNat 32 ((0 * 2^32 + b.toNat) * 2^32 +
      a.toNat)) (BitVec.ofNat 32 (((0 * 2^32 + b.toNat) * 2^32 + a.toNat) / 2^32)))) = _
    rw [ha, hb]
  rw [hw]
  exact statusWord_conditions _

/-- `SYSREQ.C 0; NOP` with a native 0 of the name `floatcmp` -/
def floatProgram : AmxRef :=
  { AmxRef.ofCells [123, 0, 134, 0, 20, 0x616f6c66, 0x706d6374, 0] with
    header := ⟨8, 0, 12, 0, 256, 0, 12, 12, 20⟩ }

theorem floatProgram_compiles :
    (compile plainCompiler floatProgram fun _ _ => 1).isSome = true := by decide +kernel

def floatJit : Jit :=
  .load plainCompiler floatProgram 0x8000 floatProgram_compiles (by decide +kernel)

theorem floatJit_instrs : floatJit.instrs = [⟨0, .sysreqC, [0]⟩, ⟨8, .nop, []⟩] := by
  decide +kernel

/-- `floatcmp(1.0, 2.0)` -/
theorem float_result_compare :
    let m := floatProgram.machine 4096 33074
    let s : Machine := { m with
      mem := (m.mem.write32 (m.esp + 4) 0x3f800000).write32 (m.esp + 8) 0x40000000
      vars := { m.vars with fpuStep := compareUnit, fpuState := 0 } }
    Must floatJit.Step (fun t => t.eax = -1 ∧ t.esp = s.esp) s := by
  intro m s
  have hi : (⟨0, .sysreqC, [0]⟩ : Instruction) ∈ floatJit.instrs := by
    rw [floatJit_instrs]
    simp
  have hpc : floatJit.native 0 = some 33074 := by decide +kernel
  obtain ⟨e, -, hmust, hieee⟩ := float_result floatJit ⟨0, .sysreqC, [0]⟩ hi 20 (by decide) .floatcmp
    (by decide) s hpc
  have h1 : CoreNative.arg s 1 = 0x3f800000 := by
    show ((m.mem.write32 (m.esp + 4) 0x3f800000).write32 (m.esp + 8) 0x40000000).read32 (m.esp + 4) = _
    rw [read32_write32_sep _ _ _ _ (by decide)]
    exact read32_write32_self _ _ _
  have h2 : CoreNative.arg s 2 = 0x40000000 := read32_write32_self _ _ _
  have hv : FloatNative.result s .floatcmp = -1 := by
    rw [hieee rfl (compareUnit_follows _ rfl rfl), h1, h2]
    decide
  apply hmust.imp
  rintro _ ⟨f, k, x, -, rfl⟩
  exact ⟨hv, rfl⟩

end AmxJit
