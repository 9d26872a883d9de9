import AmxJit.Compiler.Division
import AmxJit.Compiler.Simulation

/-!
# Divide errors

The division opcodes do not look at their divisor.

* `Jit.DivideError`            the compiled code comes to a `div` or `idiv` that faults;
* `OpcodeID.division`          signedness, dividend and divisor of a division opcode;
* `division_completes_iff`     the opcodes complete exactly if the first division does not fault; the
                               second one of the signed opcodes never does.
-/

namespace AmxJit
open X86 Trans Reg

/-- the code comes to a division that raises a divide error -/
def Jit.DivideError (jit : Jit) (s : Machine) : Prop :=
  ∃ t n, Relation.ReflTransGen jit.Step s t ∧
    (∃ r, jit.image.fetch t.pc = some (.div r, n) ∨ jit.image.fetch t.pc = some (.idiv r, n)) ∧
    Terminal jit.Step t

/-- whether the division of an opcode is signed, its dividend and its divisor -/
def OpcodeID.division (s : Machine) : OpcodeID → Option (Bool × Word × Word)
  | .sdiv => some (true, s.eax, s.ecx)
  | .sdivAlt => some (true, s.ecx, s.eax)
  | .udiv => some (false, s.eax, s.ecx)
  | .udivAlt => some (false, s.ecx, s.eax)
  | _ => Option.none

/-- the divisor is not 0, and a signed quotient is a 32-bit number -/
def Completes (signed : Bool) (a b : Word) : Prop :=
  b ≠ 0 ∧ (signed = true → ¬ (a = BitVec.intMin 32 ∧ b = -1))

section
variable {jit : Jit} {s t : Machine} {e : Word}

/-- a straight line up to a division that faults -/
theorem divideError_of_run {p post : Code} {j : Instr Cell Label}
    (hseg : Seg jit.image.fetch jit.image.addr s.pc (asm (p ++ j :: post)) e)
    (hrun : runSeq jit.image.addr p s = some t) (hj : ∃ r, j = .div r ∨ j = .idiv r)
    (hfault : exec jit.image.addr j t = none) : jit.DivideError s := by
  have hsplit : asm (p ++ j :: post) = asm p ++ asm (j :: post) := List.map_append
  rw [hsplit] at hseg
  obtain ⟨x, hpre, n, hf, -⟩ := seg_append.mp hseg
  have hmust : Must jit.Step (fun u => u = { t with pc := x }) s :=
    must_run jit.driven hpre rfl hrun (.now rfl)
  obtain ⟨u, hu, rfl⟩ := hmust.run
  refine ⟨_, n, hu, ?_, fun v hv => ?_⟩
  · obtain ⟨r, rfl | rfl⟩ := hj
    · exact ⟨r, .inl hf⟩
    · exact ⟨r, .inr hf⟩
  · have hstep := (jit.driven _ _ _ hf v).mp hv
    have hpc : exec jit.image.addr j { t with pc := x } = none := by
      rw [exec_pc, hfault]
      rfl
    obtain ⟨r, rfl | rfl⟩ := hj
    · have hnone : step jit.image.addr (.div r) n { t with pc := x } = none :=
        (congrArg (Option.map _) hpc : _ = none)
      rw [hnone] at hstep
      exact absurd hstep (by simp)
    · have hnone : step jit.image.addr (.idiv r) n { t with pc := x } = none :=
        (congrArg (Option.map _) hpc : _ = none)
      rw [hnone] at hstep
      exact absurd hstep (by simp)

/-- `cdq; idiv ecx` with a divisor 0, or an overflow -/
theorem idiv_fault (adr : Label → Option Word) (s : Machine) (h : ¬ Completes true s.eax s.ecx) :
    exec adr (.idiv ecx : Instr Cell Label)
      { s with edx := if s.eax.msb then BitVec.allOnes 32 else 0 } = none := by
  show State.doIdiv _ s.ecx = none
  unfold State.doIdiv
  dsimp only
  rw [cdq_toInt]
  by_cases h0 : s.ecx = 0
  · rw [if_pos h0]
  · have ho : s.eax = BitVec.intMin 32 ∧ s.ecx = -1 := by
      by_contra hno
      exact h ⟨h0, fun _ => hno⟩
    rw [if_neg h0, ho.1, ho.2]
    exact if_pos (by decide)

/-- `xor edx, edx; div ecx` with a divisor 0 -/
theorem div_fault (adr : Label → Option Word) (s : Machine) (h : s.ecx = 0) :
    exec adr (.div ecx : Instr Cell Label) s = none := by
  show State.doDiv s s.ecx = none
  unfold State.doDiv
  exact if_pos h

/-- the straight line of a division opcode: it gets through, or its first division faults -/
theorem division_run (adr : Label → Option Word) (op : OpcodeID) (v next : Word) (s : Machine)
    {signed : Bool} {a b : Word} (hop : op.division s = some (signed, a, b)) :
    ∃ is, dataCode op v next = some is ∧
      (Completes signed a b → ∃ t, runSeq adr is s = some t) ∧
      (¬ Completes signed a b → ∃ pre post j t, is = pre ++ j :: post ∧
        runSeq adr pre s = some t ∧ (∃ r, j = .div r ∨ j = .idiv r) ∧ exec adr j t = none) := by
  have hzero (h : ¬ Completes false a b) : b = 0 := by
    by_contra h0
    exact h ⟨h0, fun hs => absurd hs (by decide)⟩
  cases op with
  | sdiv =>
    cases hop
    refine ⟨emitSdiv, rfl, fun h => ⟨_, emitSdiv_run adr s h.1 (h.2 rfl)⟩, fun h => ?_⟩
    exact ⟨[.cdq], _, .idiv ecx, _, rfl, rfl, ⟨ecx, .inr rfl⟩, idiv_fault adr s h⟩
  | sdivAlt =>
    cases hop
    refine ⟨_, rfl, fun h => ⟨_, emitSdivAlt_run adr s h.1 (h.2 rfl)⟩, fun h => ?_⟩
    exact ⟨[.xchg eax ecx, .cdq], _, .idiv ecx, _, rfl, rfl, ⟨ecx, .inr rfl⟩,
      idiv_fault adr { s with eax := s.ecx, ecx := s.eax } h⟩
  | udiv =>
    cases hop
    refine ⟨emitUdiv, rfl, fun h => ⟨_, emitUdiv_run adr s h.1⟩, fun h => ?_⟩
    exact ⟨[.xor edx edx], _, .div ecx, _, rfl, rfl, ⟨ecx, .inl rfl⟩, div_fault adr _ (hzero h)⟩
  | udivAlt =>
    cases hop
    refine ⟨_, rfl, fun h => ⟨_, emitUdivAlt_run adr s h.1⟩, fun h => ?_⟩
    exact ⟨[.xchg eax ecx, .xor edx edx], _, .div ecx, _, rfl, rfl, ⟨ecx, .inl rfl⟩,
      div_fault adr _ (hzero h)⟩
  | _ => exact absurd hop (by simp [OpcodeID.division])

/-- **A division opcode completes exactly if its divisor is not 0 and its quotient a 32-bit number**;
otherwise the CPU raises a divide error. -/
theorem division_completes_iff (jit : Jit) (i : Instruction) (hi : i ∈ jit.instrs) (s : Machine)
    (hpc : jit.native i.address = some s.pc) (signed : Bool) (a b : Word)
    (hop : i.opcode.division s = some (signed, a, b)) :
    ∃ is e, compileInstr jit.compiler jit.amx i = some (asm is) ∧
      Seg jit.image.fetch jit.image.addr s.pc (asm is) e ∧
      ((∃ t, runSeq jit.image.addr is s = some t ∧ Must jit.Step (· = { t with pc := e }) s) ↔
        b ≠ 0 ∧ (signed = true → ¬ (a = BitVec.intMin 32 ∧ b = -1))) ∧
      (¬ (b ≠ 0 ∧ (signed = true → ¬ (a = BitVec.intMin 32 ∧ b = -1))) → jit.DivideError s) := by
  obtain ⟨is, hcode, hrun, hfault⟩ := division_run jit.image.addr i.opcode i.operand i.next s hop
  have hb : compileInstr jit.compiler jit.amx i = some (asm is) := by
    unfold compileInstr
    rw [hcode]
  obtain ⟨e, hseg, -⟩ := Jit.code_of hi hpc hb
  refine ⟨is, e, hb, hseg, ⟨fun ⟨t, ht, _⟩ => ?_, fun h => ?_⟩, fun h => ?_⟩
  · by_contra h
    obtain ⟨pre, post, j, u, rfl, hpre, -, hj⟩ := hfault h
    rw [runSeq_append, hpre, Option.bind_some, runSeq_cons, hj] at ht
    exact absurd ht (by simp)
  · obtain ⟨t, ht⟩ := hrun h
    exact ⟨t, ht, must_run jit.driven hseg rfl ht (.now rfl)⟩
  · obtain ⟨pre, post, j, t, rfl, hpre, hj, hexec⟩ := hfault h
    exact divideError_of_run hseg hpre hj hexec

end

/-- `SDIV; NOP` -/
def divideProgram : AmxRef := .ofCells [73, 134]

theorem divideProgram_compiles :
    (compile plainCompiler divideProgram fun _ _ => 1).isSome = true := by decide +kernel

def divideJit : Jit :=
  .load plainCompiler divideProgram 0x8000 divideProgram_compiles (by decide +kernel)

theorem divideJit_instrs : divideJit.instrs = [⟨0, .sdiv, []⟩, ⟨4, .nop, []⟩] := by decide +kernel

theorem divideJit_code : (⟨0, .sdiv, []⟩ : Instruction) ∈ divideJit.instrs ∧
    divideJit.native 0 = some 33074 := by
  refine ⟨?_, by decide +kernel⟩
  rw [divideJit_instrs]
  exact List.mem_cons_self

/-- `SDIV` with ALT = 0 -/
theorem divide_by_zero : let s := divideProgram.machine 4096 33074
    divideJit.native 0 = some s.pc ∧ s.ecx = 0 ∧ divideJit.DivideError s := by
  intro s
  obtain ⟨hi, hpc⟩ := divideJit_code
  obtain ⟨b, e, hb, hseg, -⟩ := Jit.code_at hi hpc
  cases hb
  have hfault : ¬ Completes true s.eax s.ecx := fun h => h.1 rfl
  exact ⟨hpc, rfl, divideError_of_run (s := s) (p := [.cdq]) hseg rfl ⟨ecx, .inr rfl⟩
    (idiv_fault _ s hfault)⟩

/-- `SDIV` of 7 by 2 -/
theorem divide_completes : let s := { divideProgram.machine 4096 33074 with eax := 7, ecx := 2 }
    ∃ is t e, compileInstr divideJit.compiler divideJit.amx ⟨0, .sdiv, []⟩ = some (asm is) ∧
      runSeq divideJit.image.addr is s = some t ∧
      Must divideJit.Step (· = { t with pc := e }) s := by
  intro s
  obtain ⟨hi, hpc⟩ := divideJit_code
  obtain ⟨is, e, hb, -, h, -⟩ := division_completes_iff divideJit ⟨0, .sdiv, []⟩ hi s hpc true 7 2 rfl
  obtain ⟨t, ht, hmust⟩ := h.mpr ⟨by decide, fun _ => by decide⟩
  exact ⟨is, t, e, hb, ht, hmust⟩

end AmxJit
