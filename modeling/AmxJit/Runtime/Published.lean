import AmxJit.Runtime.Results

/-!
# The AMX structure after `Exec`

* `abort_resets_iff`       the AMX stack and heap after an abort;
* `return_published_iff`   PRI, ALT, FRM and STK after the entry function has returned.
-/

set_option linter.constructorNameAsVariable false

namespace AmxJit
open X86 Trans Reg

namespace Ending

/-- The script ends with an error that does not put it to sleep. -/
def Aborts (c : CompilerImpl) (s : Machine) : Ending → Prop
  | .return' => False
  | .halt error _ => error ≠ AMX_ERR_SLEEP
  | .bounds => True
  | .callee f => ¬ (c.enableSleep = true ∧ f.error s = AMX_ERR_SLEEP)

theorem amx_aborts {jit : Jit} {p : Word} {s : Machine} {e : Ending} (h : e.Aborts jit.compiler s) :
    e.amx jit p s = abortAmx (e.code s) (e.machine p s) := by
  cases e with
  | return' => exact h.elim
  | halt error ret => exact if_neg fun hc => h hc.2
  | bounds => rfl
  | callee f => exact amx_abort h

end Ending

/-! ## an instance -/

/-- `HALT 0; POP.PRI; POP.PRI; HALT 5; PROC; RET`, with `main` at 8 and the public function 24 -/
def leaveProgram : AmxRef where
  amx := sampleProgram.amx
  header := ⟨8, 0, 32, 0, 256, 8, 32, 40, 40⟩
  mem := (AmxRef.ofCells [120, 0, 42, 42, 120, 5, 46, 47, 24, 0]).mem

theorem leaveProgram_compiles :
    (compile plainCompiler leaveProgram fun _ _ => 1).isSome = true := by decide +kernel

def leaveJit : Jit :=
  .load plainCompiler leaveProgram 0x8000 leaveProgram_compiles (by decide +kernel)

theorem leaveJit_instrs : leaveJit.instrs = [⟨0, .halt, [0]⟩, ⟨8, .popPri, []⟩, ⟨12, .popPri, []⟩,
    ⟨16, .halt, [5]⟩, ⟨24, .proc, []⟩, ⟨28, .ret, []⟩] := by decide +kernel

def leaveEnv : Env := leaveJit.process rfl rfl (by decide +kernel)

def leaveEntry (index : Word) : Machine :=
  { sampleEntry index 0 sampleProgram.amx with pc := (leaveJit.image.addr .exec).getD 0 }

namespace Env

theorem leaveEntry_entry {index : Word} : Entry leaveEnv (leaveEntry index) := by
  have hexec : leaveJit.image.addr .exec = some (leaveEntry index).pc := by
    show leaveJit.image.addr .exec = some ((leaveJit.image.addr .exec).getD 0)
    decide +kernel
  exact process_entry hexec (sampleEntry_top index 0 sampleProgram.amx) (.inl rfl)
    (.inl (read32_write32_self _ _ _)) rfl rfl rfl (.inl rfl)

/-- `main` pops the return address and the size of the arguments, and ends with the error 5. -/
theorem leave_halt (C : Machine → Prop) (n : Nat) :
    let u := leaveEntry AMX_EXEC_MAIN
    ∃ (ret : Word) (s v : Machine), Ended leaveEnv (level leaveEnv C n) u (.halt 5 ret) s ∧
      Relation.ReflTransGen (level leaveEnv C n) s v ∧ v.pc = u.top ∧ s.esp - s.ebx = 256 ∧
      s.vars = startVars u := by
  intro u
  have hu : Entry leaveEnv u := leaveEntry_entry
  have haddr : leaveEnv.jit.entryAddress u = 8 := by decide +kernel
  have h8 : leaveJit.native 8 = some 33108 := by decide +kernel
  have h12 : leaveJit.native 12 = some 33109 := by decide +kernel
  have h16 : leaveJit.native 16 = some 33110 := by decide +kernel
  have hf8 : leaveJit.image.fetch 33108 = some (.pop (eax : Opnd Cell), 33109) := by decide +kernel
  have hf12 : leaveJit.image.fetch 33109 = some (.pop (eax : Opnd Cell), 33110) := by decide +kernel
  have hi : (⟨16, .halt, [5]⟩ : Instruction) ∈ leaveJit.instrs := by
    rw [leaveJit_instrs]
    simp
  obtain ⟨X, hX, -⟩ := @level_calls leaveEnv C n
  rw [hX]
  obtain ⟨t, hr, ht⟩ := start_run (X := X) hu (by decide) (fun h => absurd h.2 (by decide))
    (by rw [haddr]; decide) (by rw [haddr]; exact h8)
  have hpc : t.pc = 33108 := ht.pc
  have hin : leaveEnv.jit.InScript t.pc := by
    rw [hpc]
    exact leaveJit.inScript_native h8
  have h1 : Step leaveEnv X t { t with eax := t.top, esp := t.esp + 4, pc := 33109 } :=
    step_on hin (by rw [hpc]; exact hf8) rfl (fun _ _ => rfl) (leaveJit.inScript_native h12)
  set t1 := { t with eax := t.top, esp := t.esp + 4, pc := 33109 } with ht1
  have h2 : Step leaveEnv X t1 { t1 with eax := t1.top, esp := t.esp + 4 + 4, pc := 33110 } :=
    step_on (leaveJit.inScript_native h12) hf12 rfl (fun _ _ => rfl) (leaveJit.inScript_native h16)
  set s := { t1 with eax := t1.top, esp := t.esp + 4 + 4, pc := 33110 } with hs
  have hframe : InFrame leaveEnv u .start s :=
    ht.inFrame.congr hu (fun _ _ => rfl) rfl rfl rfl rfl rfl rfl rfl
  have hesp : s.esp = 0x18100 := by
    show t.esp + 4 + 4 = _
    rw [ht.esp]
    decide
  have hroom : leaveEnv.AmxRoom s.esp := by
    rw [hesp]
    exact below_bytes (by decide) (by decide)
  obtain ⟨v, hv, hpcv⟩ := halt_run (X := X) hu hframe hi rfl h16 hroom
  obtain ⟨ret, hret⟩ := Jit.pushes_halt hi rfl
  have hend : Ended leaveEnv (Step leaveEnv X) u
      (.halt (Instruction.operand ⟨16, .halt, [5]⟩) ret) s :=
    .halt ((hr.tail h1).tail h2) hi rfl h16 hret
  refine ⟨ret, s, v, hend, hv, hpcv, ?_, ht.vars⟩
  rw [hesp, hframe.ebx]
  decide

/-- `Exec` of the public function returns. -/
theorem leave_return :
    let u := leaveEntry 0
    ∃ s v, Ended leaveEnv (level leaveEnv (fun _ => True) 0) u .return' s ∧
      Relation.ReflTransGen (level leaveEnv (fun _ => True) 0) s v ∧ v.pc = u.top ∧
      s.vars = startVars u := by
  intro u
  have haddr : leaveEnv.jit.entryAddress u = 24 := by decide +kernel
  have hp : leaveJit.native 24 = some 33120 := by decide +kernel
  have hproc : Seg leaveJit.image.fetch leaveJit.image.addr 33120 (asm emitProc) 33123 :=
    ⟨33121, by decide +kernel, 33122, by decide +kernel, 33123, by decide +kernel, rfl⟩
  have hseg : Seg leaveJit.image.fetch leaveJit.image.addr 33123
      (asm [.pop ebp, .add ebp ebx]) 33125 :=
    ⟨33124, by decide +kernel, 33125, by decide +kernel, rfl⟩
  have hf : leaveJit.image.fetch 33125 = some (.ret, 33126) := by decide +kernel
  obtain ⟨X, hX, hret⟩ := @level_calls leaveEnv (fun _ => True) 0
  rw [hX]
  obtain ⟨s, v, hs, hv, hpcv, hvars, -, -⟩ := entry_return (u := u) hret leaveEntry_entry (by decide)
    (fun h => absurd h.2 (by decide)) (by rw [haddr]; decide) (by rw [haddr]; exact hp) hproc hseg hf
    (below_bytes (by decide) (by decide))
  exact ⟨s, v, hs, hv, hpcv, hvars⟩

/-! ## aborts -/

/-- **An abort gives the AMX stack and heap back exactly if they are free already**: `HaltHelper`
publishes STK as it is, and does not write `amx->hea` and `amx->paramcount`. -/
theorem abort_resets_iff (env : Env) (C : Machine → Prop) (n : Nat) (u s v : Machine) (e : Ending)
    (hu : Entry env u) (hs : Ended env (level env C n) u e s) (ha : e.Aborts env.jit.compiler s)
    (hr : Relation.ReflTransGen (level env C n) s v) (hpc : v.pc = u.top) :
    let m := e.machine (u.esp - (env.mode u).depth) s
    (v.vars.amx.stk = u.vars.amx.stk + 4 * u.vars.amx.paramcount ∧
        v.vars.amx.hea = u.vars.amx.hea ∧ v.vars.amx.paramcount = 0) ↔
      (m.esp - m.ebx = u.vars.amx.stk + 4 * u.vars.amx.paramcount ∧
        m.vars.amx.hea = u.vars.amx.hea ∧ m.vars.amx.paramcount = 0) := by
  intro m
  rw [(ended_left hu hs hr hpc).amx, Ending.amx_aborts ha]
  exact Iff.rfl

/-- `HALT 5` at the start of a public function without arguments: STK = 256 before, 248 after. -/
theorem abort_leaks :
    let u := sampleEntry 2 0 sampleProgram.amx
    ∃ (ret : Word) (s v : Machine), Entry sampleEnv u ∧
      Ended sampleEnv (level sampleEnv (fun _ => True) 0) u (.halt 5 ret) s ∧
      Relation.ReflTransGen (level sampleEnv (fun _ => True) 0) s v ∧ v.pc = u.top ∧
      u.vars.amx.stk = 256 ∧ u.vars.amx.paramcount = 0 ∧ v.vars.amx.stk = 248 := by
  intro u
  have hu : Entry sampleEnv u := sampleEntry_entry (.inl rfl) rfl rfl rfl
  obtain ⟨ret, s, v, hst, hs, hr, hpc⟩ := sample_abort (.inl rfl) (fun _ => True) 0
  refine ⟨ret, s, v, hu, hs, hr, hpc, rfl, rfl, ?_⟩
  have ha : (Ending.halt 5 ret).Aborts sampleEnv.jit.compiler s :=
    show (5 : Word) ≠ AMX_ERR_SLEEP by decide
  rw [(ended_left hu hs hr hpc).amx, Ending.amx_aborts ha]
  show s.esp - s.ebx = 248
  rw [hst.esp, hst.inFrame.ebx]
  decide

/-- The stack is given back by the function itself, which then ends with `HALT 5`. -/
theorem abort_resets_popped :
    let u := leaveEntry AMX_EXEC_MAIN
    ∃ (ret : Word) (s v : Machine),
      Ended leaveEnv (level leaveEnv (fun _ => True) 0) u (.halt 5 ret) s ∧
      Relation.ReflTransGen (level leaveEnv (fun _ => True) 0) s v ∧ v.pc = u.top ∧
      v.vars.amx.stk = u.vars.amx.stk + 4 * u.vars.amx.paramcount ∧
      v.vars.amx.hea = u.vars.amx.hea ∧ v.vars.amx.paramcount = 0 := by
  intro u
  obtain ⟨ret, s, v, hs, hr, hpc, hstk, hvars⟩ := leave_halt (fun _ => True) 0
  have ha : (Ending.halt 5 ret).Aborts leaveEnv.jit.compiler s :=
    show (5 : Word) ≠ AMX_ERR_SLEEP by decide
  have h := abort_resets_iff leaveEnv (fun _ => True) 0 u s v _ leaveEntry_entry hs ha hr hpc
  refine ⟨ret, s, v, hs, hr, hpc, h.mpr ⟨hstk, ?_, ?_⟩⟩
  · show s.vars.amx.hea = _
    rw [hvars]
    rfl
  · show s.vars.amx.paramcount = _
    rw [hvars]
    rfl

/-! ## returns -/

/-- **`Exec` publishes the AMX registers of a normal return exactly if sleep is disabled**, or if the
structure has them already. -/
theorem return_published_iff (env : Env) (C : Machine → Prop) (n : Nat) (u s v : Machine)
    (hu : Entry env u) (hs : Ended env (level env C n) u .return' s)
    (hnone : s.vars.amx.error = AMX_ERR_NONE)
    (hr : Relation.ReflTransGen (level env C n) s v) (hpc : v.pc = u.top) :
    (v.vars.amx.pri = s.eax ∧ v.vars.amx.alt = s.ecx ∧ v.vars.amx.frm = s.ebp - s.ebx ∧
        v.vars.amx.stk = s.esp - s.ebx) ↔
      (env.jit.compiler.enableSleep = true →
        s.vars.amx.pri = s.eax ∧ s.vars.amx.alt = s.ecx ∧ s.vars.amx.frm = s.ebp - s.ebx ∧
        s.vars.amx.stk = s.esp - s.ebx) := by
  rw [(ended_left hu hs hr hpc).amx]
  show (((returnAmx env.jit.compiler s).pri = _ ∧ (returnAmx env.jit.compiler s).alt = _ ∧
    (returnAmx env.jit.compiler s).frm = _ ∧ (returnAmx env.jit.compiler s).stk = _) ↔ _)
  unfold returnAmx
  split
  · rename_i h
    exact ⟨fun hp _ => hp, fun hp => hp h.1⟩
  · rename_i h
    refine iff_of_true ⟨rfl, rfl, rfl, rfl⟩ fun hen => absurd ⟨hen, ?_⟩ h
    rw [hnone]
    decide

/-- `PROC; RET` with sleep enabled: STK is 252 at the return, and `amx->stk` is 256. -/
theorem return_not_published :
    let u := sampleEntry 3 0 sampleProgram.amx
    ∃ s v, Entry sampleEnv u ∧
      Ended sampleEnv (level sampleEnv (fun _ => True) 0) u .return' s ∧
      s.vars.amx.error = AMX_ERR_NONE ∧
      Relation.ReflTransGen (level sampleEnv (fun _ => True) 0) s v ∧ v.pc = u.top ∧
      s.esp - s.ebx = 252 ∧ v.vars.amx.stk = 256 := by
  intro u
  obtain ⟨s, v, hu, hs, hr, hpc, hvars, hstk⟩ := sample_return
  have herr : s.vars.amx.error = AMX_ERR_NONE := by
    rw [hvars]
    rfl
  refine ⟨s, v, hu, hs, herr, hr, hpc, hstk, ?_⟩
  rw [(ended_left hu hs hr hpc).amx]
  show (returnAmx sampleEnv.jit.compiler s).stk = 256
  have hret : returnAmx sampleEnv.jit.compiler s = s.vars.amx := by
    refine if_pos ⟨rfl, ?_⟩
    rw [herr]
    decide
  rw [hret, hvars]
  rfl

/-- Without sleep the registers are published. -/
theorem return_published_plain :
    let u := leaveEntry 0
    ∃ s v, Ended leaveEnv (level leaveEnv (fun _ => True) 0) u .return' s ∧
      Relation.ReflTransGen (level leaveEnv (fun _ => True) 0) s v ∧ v.pc = u.top ∧
      v.vars.amx.pri = s.eax ∧ v.vars.amx.alt = s.ecx ∧ v.vars.amx.frm = s.ebp - s.ebx ∧
      v.vars.amx.stk = s.esp - s.ebx := by
  intro u
  obtain ⟨s, v, hs, hr, hpc, hvars⟩ := leave_return
  have herr : s.vars.amx.error = AMX_ERR_NONE := by
    rw [hvars]
    rfl
  have h := return_published_iff leaveEnv (fun _ => True) 0 u s v leaveEntry_entry hs herr hr hpc
  exact ⟨s, v, hs, hr, hpc, h.mpr fun hsleep => absurd hsleep (by decide)⟩

end Env

end AmxJit
