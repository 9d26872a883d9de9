import AmxJit.Runtime.Steady

/-!
# Indirect jumps and calls by hand

* `must_script`, `must_line`   rules for the instructions of the script;
* `must_jumpPri`               `JUMP.pri` and `SCTRL 6`: to the instruction whose address is PRI, or on;
* `must_lctrl`, `must_sctrl`   `LCTRL 8` turns an address into a pointer, `SCTRL 8` jumps to it;
* `must_proc`, `must_ret`, `must_retn`   the beginning and the ends of a function;
* `indirect_transfers`         what the ways to pass control have in common.
-/

set_option linter.constructorNameAsVariable false

namespace AmxJit
open X86 Trans Reg

theorem Jit.At.native {jit : Jit} {i : Instruction} {pc : Word} (h : jit.At i pc)
    (hop : i.opcode ≠ .proc) : jit.native i.address = some pc := by
  obtain ⟨a, ha, rfl | ⟨hp, -⟩⟩ := h
  · exact ha
  · exact absurd hp hop

/-- `JUMP.pri` and `SCTRL 6` -/
def Instruction.JumpsToPri (i : Instruction) : Prop :=
  i.opcode = .jumpPri ∨ i.opcode = .sctrl ∧ i.operand = 6

namespace Env
variable {env : Env} {X : Machine → Machine → Prop} {Q : Machine → Prop} {s t : Machine}
  {i f : Instruction}

/-! ## the instructions of the script -/

/-- a step of the script has no alternative -/
theorem must_script (hin : env.jit.InScript s.pc) (hst : Step env X s t)
    (h : Must (Step env X) Q t) : Must (Step env X) Q s := by
  obtain ⟨-, i, n, hf, hstep⟩ := step_script hin hst
  refine Until.det trivial (fun v => ⟨fun hv => ?_, fun hv => hv ▸ hst⟩) h
  obtain ⟨-, j, m, hf', hstep'⟩ := step_script hin hv
  rw [hf] at hf'
  cases hf'
  rw [hstep] at hstep'
  exact (Option.some.inj hstep').symm

theorem closed_inScript (jit : Jit) : jit.Closed jit.InScript :=
  ⟨fun _ _ => jit.inScript_at, fun _ _ _ => jit.inScript_next⟩

/-- Steps inside the script that write to AMX memory only are the steps of the process. -/
theorem must_inside (h : Must (env.jit.Within env.jit.InScript env.amxMem) Q s) :
    Must (Step env X) Q s := by
  apply h.lift
  intro a b hab c
  obtain ⟨i, n, hf, hstep⟩ := hab.step
  constructor
  · intro hc
    obtain ⟨-, j, m, hf', hstep'⟩ := step_script hab.source hc
    rw [hf] at hf'
    cases hf'
    rw [hstep] at hstep'
    exact (Option.some.inj hstep').symm
  · rintro rfl
    exact step_on hab.source hf hstep hab.mem hab.target

theorem must_line {is : Code} {a b : Word} (hin : env.jit.InScript a)
    (hseg : Seg env.jit.image.fetch env.jit.image.addr a (asm is) b)
    (hrun : runSeq env.jit.image.addr is s = some t) (hm : env.jit.Inside env.amxMem is s)
    (h : env.jit.InScript b → Must (Step env X) Q { t with pc := b }) :
    Must (Step env X) Q { s with pc := a } := by
  have hline : Must (env.jit.Within env.jit.InScript env.amxMem)
      (fun u => u = { t with pc := b } ∧ env.jit.InScript b) { s with pc := a } :=
    Jit.must_line (closed_inScript env.jit) hin hseg hrun hm fun hb => .now ⟨rfl, hb⟩
  refine (must_inside hline).bind ?_
  rintro _ ⟨rfl, hb⟩
  exact h hb

theorem must_ret {n : Word} (hin : env.jit.InScript s.pc)
    (hf : env.jit.image.fetch s.pc = some (.ret, n)) (htop : env.jit.InScript s.top)
    (h : Must (Step env X) Q { s with pc := s.top, esp := s.esp + 4 }) : Must (Step env X) Q s :=
  must_script hin (step_on hin hf rfl (fun _ _ => rfl) htop) h

/-! ## the calls of the helpers -/

/-- what an indirect jump leaves as it was: ALT, FRM, STK, the direction flag, the structures, and the
memory but for the `need` bytes below STK, whatever HEA is -/
structure Passed (env : Env) (s t : Machine) : Prop where
  ecx : t.ecx = s.ecx
  ebx : t.ebx = s.ebx
  ebp : t.ebp = s.ebp
  esp : t.esp = s.esp
  df : t.flags.df = s.flags.df
  vars : t.vars = s.vars
  mem : Set.EqOn t.mem s.mem (below s.esp env.need)ᶜ

/-- an instruction whose code is the call of a helper: the state in which the helper begins -/
theorem must_helper {l : Label} {n : Word} (hin : env.jit.InScript s.pc)
    (hf : env.jit.image.fetch s.pc = some (.call l, n)) (hl : l ∈ scriptCalls)
    (hargs : helperArgs l = 4) (hD : l ≠ .sysreqDHelper) (hroom : env.AmxRoom s.esp)
    (h : ∀ a, env.jit.image.addr l = some a → Must (Step env X) Q { s.push n with pc := a }) :
    Must (Step env X) Q s := by
  obtain ⟨a, ha⟩ := env.jit.calls_addr l (.tail _ hl)
  have hpush : bytes (s.esp - 4) 4 ⊆ env.amxMem := by
    refine Set.Subset.trans (bytes_below (i := 4) (le_refl 4) ?_) hroom
    unfold need
    omega
  have hroom' : env.AmxRoom (s.esp - 4 + helperArgs l) := by
    rw [hargs, BitVec.sub_add_cancel]
    exact hroom
  exact must_script hin (step_call hin hf hl ha (fun h => absurd h hD) hpush hroom') (h a ha)

/-- a helper is called with the stack pointer 4 lower, and leaves it there -/
theorem kept_pushed {n : Word} {m : Mem} {w : Nat} (hw : w ≤ env.window + 40)
    (hm : Set.EqOn m (s.push n).mem (below (s.push n).esp w)ᶜ) :
    Set.EqOn m s.mem (below s.esp env.need)ᶜ := by
  have hneed : env.need = env.window + 256 := rfl
  have hwin := env.window_le
  refine (hm.mono (Set.compl_subset_compl.mpr ?_)).trans
    (eqOn_write n (Set.disjoint_compl_right_iff_subset.mpr ?_))
  · exact below_below (i := 4) (by omega) (by omega)
  · exact bytes_below (i := 4) (le_refl 4) (by omega)

/-- **`JUMP.pri` and `SCTRL 6`**: to what the lookup of PRI finds, or on -/
theorem must_jumpPri (hi : i ∈ env.jit.instrs) (hop : i.JumpsToPri) (hpc : env.jit.At i s.pc)
    (hroom : env.AmxRoom s.esp) :
    ∃ e, (∀ j ∈ env.jit.instrs, j.address = i.next → env.jit.At j e) ∧ env.jit.InScript e ∧
      Must (Step env X) (fun t =>
        t.pc = (if getJITInstrPtr env.jit.instrTable s.eax = 0 then e
          else getJITInstrPtr env.jit.instrTable s.eax) ∧ t.eax = s.eax ∧ Passed env s t) s := by
  have hproc : i.opcode ≠ .proc := by
    rcases hop with h | ⟨h, -⟩ <;> rw [h] <;> simp
  have hcode : compileInstr env.jit.compiler env.jit.amx i = some (emit (.call .jumpHelper)) := by
    unfold compileInstr controlCode
    rcases hop with h | ⟨h, h6⟩
    · rw [h]
      rfl
    · rw [h, h6]
      rfl
  have hnat := hpc.native hproc
  have hin := env.jit.inScript_native hnat
  obtain ⟨e, hseg, hnext⟩ := Jit.code_of hi hnat hcode
  obtain ⟨n, hf, rfl⟩ := hseg
  refine ⟨n, hnext, env.jit.inScript_next hin hf, ?_⟩
  refine must_helper hin hf (by simp [scriptCalls]) rfl (by simp) hroom fun a ha => ?_
  have hesp : (s.push n).esp + 4 = s.esp := BitVec.sub_add_cancel _ _
  have htop : (s.push n).top = n := read32_write32_self _ _ _
  set p := getJITInstrPtr env.jit.instrTable s.eax with hp
  have hjump : Until (Step env X) env.Plain (fun t => ∃ (fl : Flags) (m : Mem),
      Set.EqOn m (s.push n).mem (below (s.push n).esp (env.window + 40))ᶜ ∧ t = { s.push n with
        edx := p, esp := (s.push n).esp + 4, flags := fl, mem := m,
        pc := if p = 0 then (s.push n).top else p }) { s.push n with pc := a } := by
    apply until_jumpHelper (env.drives X) ha
    exact fun fl m hm => .now ⟨fl, m, hm, rfl⟩
  refine (until_df hjump).mono (fun _ _ => trivial) ?_
  rintro t ⟨⟨fl, m, hm, rfl⟩, hdf⟩
  refine ⟨?_, rfl, rfl, rfl, rfl, hesp, hdf, rfl, kept_pushed (le_refl _) hm⟩
  show (if p = 0 then (s.push n).top else p) = _
  rw [htop]

/-- **`LCTRL 8`**: the pointer to the instruction whose address is PRI -/
theorem must_lctrl (hi : i ∈ env.jit.instrs) (hop : i.opcode = .lctrl) (h8 : i.operand = 8)
    (hpc : env.jit.At i s.pc) (hroom : env.AmxRoom s.esp) :
    Must (Step env X) (fun t => (∀ j ∈ env.jit.instrs, j.address = i.next → env.jit.At j t.pc) ∧
      t.eax = getJITInstrPtr env.jit.instrTable s.eax ∧ Passed env s t) s := by
  have hcode : compileInstr env.jit.compiler env.jit.amx i = some (emit (.call .jumpLookup)) := by
    unfold compileInstr controlCode
    rw [hop, h8]
    rfl
  have hnat := hpc.native (by rw [hop]; simp)
  have hin := env.jit.inScript_native hnat
  obtain ⟨e, hseg, hnext⟩ := Jit.code_of hi hnat hcode
  obtain ⟨n, hf, rfl⟩ := hseg
  refine must_helper hin hf (by simp [scriptCalls]) rfl (by simp) hroom fun a ha => ?_
  have hesp : (s.push n).esp + 4 = s.esp := BitVec.sub_add_cancel _ _
  have htop : (s.push n).top = n := read32_write32_self _ _ _
  have hlookup : Until (Step env X) env.Plain (fun t => ∃ (fl : Flags) (m : Mem),
      Set.EqOn m (s.push n).mem (below (s.push n).esp (env.window + 32))ᶜ ∧ t = { s.push n with
        eax := getJITInstrPtr env.jit.instrTable s.eax, flags := fl, mem := m,
        esp := (s.push n).esp + 4, pc := (s.push n).top }) { s.push n with pc := a } := by
    apply until_scriptLookup (env.drives X) ha
    exact fun fl m hm => .now ⟨fl, m, hm, rfl⟩
  refine (until_df hlookup).mono (fun _ _ => trivial) ?_
  rintro t ⟨⟨fl, m, hm, rfl⟩, hdf⟩
  refine ⟨?_, rfl, rfl, rfl, rfl, hesp, hdf, rfl, kept_pushed (by omega) hm⟩
  show ∀ j ∈ env.jit.instrs, j.address = i.next → env.jit.At j (s.push n).top
  rw [htop]
  exact hnext

/-- **`SCTRL 8`**: to the instruction that PRI points to -/
theorem must_sctrl (hi : i ∈ env.jit.instrs) (hop : i.opcode = .sctrl) (h8 : i.operand = 8)
    (hpc : env.jit.At i s.pc) (hto : env.jit.InScript s.eax) :
    Must (Step env X) (fun t => t = { s with pc := s.eax }) s := by
  have hcode : compileInstr env.jit.compiler env.jit.amx i = some (emit (.jmpReg .eax)) := by
    unfold compileInstr controlCode
    rw [hop, h8]
    rfl
  have hnat := hpc.native (by rw [hop]; simp)
  obtain ⟨e, hseg, -⟩ := Jit.code_of hi hnat hcode
  obtain ⟨n, hf, rfl⟩ := hseg
  have hin := env.jit.inScript_native hnat
  exact must_script hin (step_on hin hf rfl (fun _ _ => rfl) hto) (.now rfl)

/-! ## functions -/

/-- what a function call depends on: the instruction that comes next, the data section, STK and FRM
of the caller as pointers, and the size of the arguments -/
structure CallSite where
  next : Instruction
  base : Word
  stk : Word
  frm : Word
  size : Word

variable {k : CallSite}

/-- Control has come to the function `f`. -/
structure AtFunction (env : Env) (f : Instruction) (k : CallSite) (t : Machine) : Prop where
  pc : env.jit.native f.address = some t.pc
  ebx : t.ebx = k.base
  esp : t.esp = k.stk - 4
  ebp : t.ebp = k.frm
  ret : env.jit.At k.next t.top ∧ env.jit.InScript t.top
  size : t.mem.read32 k.stk = k.size

/-- the frame that `PROC` makes -/
structure Activation (env : Env) (k : CallSite) (p : Machine) : Prop where
  ebx : p.ebx = k.base
  esp : p.esp = k.stk - 8
  frm : p.mem.read32 (k.stk - 8) + k.base = k.frm
  ret : env.jit.At k.next (p.mem.read32 (k.stk - 4)) ∧ env.jit.InScript (p.mem.read32 (k.stk - 4))
  size : p.mem.read32 k.stk = k.size

/-- The function has returned: STK is behind the arguments, and in `amx->stk`. -/
structure Resumed (env : Env) (k : CallSite) (v : Machine) : Prop where
  pc : env.jit.At k.next v.pc
  ebp : v.ebp = k.frm
  esp : v.esp = k.stk + k.size + 4
  stk : v.vars.amx.stk = k.stk + k.size + 4 - k.base

/-- The function has left by `RET`: the arguments are still on the stack, `amx->stk` is as in `q`. -/
structure Unwound (env : Env) (k : CallSite) (q v : Machine) : Prop where
  pc : env.jit.At k.next v.pc
  ebp : v.ebp = k.frm
  esp : v.esp = k.stk
  vars : v.vars = q.vars

/-- the body of a function has left the frame as `PROC` has made it -/
structure Balanced (p q : Machine) : Prop where
  esp : q.esp = p.esp
  mem : Set.EqOn q.mem p.mem (bytes p.esp 12)

theorem Balanced.read {p q : Machine} (h : Balanced p q) {d : Nat} (hd : d + 4 ≤ 12) :
    q.mem.read32 (p.esp + BitVec.ofNat 32 d) = p.mem.read32 (p.esp + BitVec.ofNat 32 d) :=
  EqOn.read32 h.mem (bytes_sub hd)

theorem Balanced.activation {p q : Machine} (h : Balanced p q) (hebx : q.ebx = p.ebx)
    (hp : Activation env k p) : Activation env k q := by
  have hread (d : Nat) (hd : d + 4 ≤ 12) {a : Word} (ha : k.stk - 8 + BitVec.ofNat 32 d = a) :
      q.mem.read32 a = p.mem.read32 a := by
    rw [← ha, ← hp.esp]
    exact h.read hd
  have h0 := hread 0 (by decide) (add_zero (k.stk - 8))
  have h4 := hread 4 (by decide) (sub_add_lit (c := 4) _ (by decide))
  have h8 := hread 8 (by decide) (BitVec.sub_add_cancel _ _)
  refine ⟨hebx.trans hp.ebx, h.esp.trans hp.esp, ?_, ?_, ?_⟩
  · rw [h0]
    exact hp.frm
  · rw [h4]
    exact hp.ret
  · rw [h8]
    exact hp.size

/-- `CALL` -/
theorem must_call {r : Instruction} (hi : i ∈ env.jit.instrs) (hop : i.opcode = .call)
    (hf : f ∈ env.jit.instrs) (hdest : f.address = i.operand - env.jit.amx.code)
    (hr : r ∈ env.jit.instrs) (hnext : r.address = i.next) (hpc : env.jit.At i s.pc)
    (hroom : env.AmxRoom s.esp) :
    Must (Step env X) (AtFunction env f ⟨r, s.ebx, s.esp, s.ebp, s.mem.read32 s.esp⟩) s := by
  have hcode : compileInstr env.jit.compiler env.jit.amx i =
      some (emit (.call (.cip f.address))) := by
    unfold compileInstr controlCode
    rw [hop, hdest]
    rfl
  have hnat := hpc.native (by rw [hop]; simp)
  have hin := env.jit.inScript_native hnat
  obtain ⟨e, hseg, hnext'⟩ := Jit.code_of hi hnat hcode
  obtain ⟨n, hfetch, rfl⟩ := hseg
  obtain ⟨x, hx, -⟩ := addr_cip hf
  have hin' := env.jit.inScript_next hin hfetch
  have hstep : step env.jit.image.addr (.call (.cip f.address) : Instr Cell Label) n s =
      some { s.push n with pc := x } := by
    show (env.jit.image.addr _).map _ = _
    rw [hx]
    rfl
  have hcell : bytes (s.esp - 4) 4 ⊆ env.amxMem := by
    refine Set.Subset.trans (bytes_below (i := 4) (le_refl 4) ?_) hroom
    unfold need
    omega
  have hcall : Step env X s { s.push n with pc := x } :=
    step_on hin hfetch hstep (eqOn_write n (Set.disjoint_compl_right_iff_subset.mpr hcell))
      (env.jit.inScript_native hx)
  have htop : (s.push n).top = n := read32_write32_self _ _ _
  refine must_script hin hcall (.now ⟨hx, rfl, rfl, rfl, ?_, ?_⟩)
  · show env.jit.At r (s.push n).top ∧ env.jit.InScript (s.push n).top
    rw [htop]
    exact ⟨hnext' r hr hnext, hin'⟩
  · have hbelow : bytes (s.esp - 4) 4 ⊆ below s.esp 4 :=
      bytes_below (i := 4) (le_refl 4) (le_refl 4)
    exact EqOn.read32 (eqOn_write n (Set.disjoint_compl_right_iff_subset.mpr hbelow))
      (Set.subset_compl_iff_disjoint_left.mpr (below_disjoint (by decide)))

/-- `PROC` -/
theorem must_proc (hf : f ∈ env.jit.instrs) (hop : f.opcode = .proc)
    (hs : AtFunction env f k s) (hcell : bytes (k.stk - 8) 4 ⊆ env.amxMem) :
    Must (Step env X) (fun p => (∀ j ∈ env.jit.instrs, j.address = f.next → env.jit.At j p.pc) ∧
      env.jit.InScript p.pc ∧ Activation env k p) s := by
  have hcode : compileInstr env.jit.compiler env.jit.amx f = some (asm emitProc) := by
    unfold compileInstr controlCode
    rw [hop]
    rfl
  have hin := env.jit.inScript_native hs.pc
  obtain ⟨e, hseg, hnext⟩ := Jit.code_of hf hs.pc hcode
  have hesp : s.esp - 4 = k.stk - 8 := by
    rw [hs.esp]
    exact sub_sub_lit _ (by decide)
  have hrun := proc_run env.jit.image.addr s
  rw [hesp] at hrun
  have hin' : env.jit.Inside env.amxMem emitProc s := by
    apply inside_proc
    rw [hesp]
    exact hcell
  refine must_line (s := s) hin hseg hrun hin' fun hine => .now ⟨hnext, hine, hs.ebx, rfl, ?_, ?_, ?_⟩
  · show (s.mem.write32 (k.stk - 8) (s.ebp - s.ebx)).read32 (k.stk - 8) + k.base = k.frm
    rw [read32_write32_self, hs.ebx, BitVec.sub_add_cancel]
    exact hs.ebp
  · show env.jit.At k.next ((s.mem.write32 (k.stk - 8) (s.ebp - s.ebx)).read32 (k.stk - 4)) ∧
      env.jit.InScript ((s.mem.write32 (k.stk - 8) (s.ebp - s.ebx)).read32 (k.stk - 4))
    rw [read32_write32_sep _ _ _ _ (sep_sub k.stk (by decide))]
    have htop := hs.ret
    unfold State.top at htop
    rwa [hs.esp] at htop
  · show (s.mem.write32 (k.stk - 8) (s.ebp - s.ebx)).read32 k.stk = k.size
    rw [read32_write32_sep _ _ _ _ (by rw [sub_eq_add_neg, sep_add_self]; decide)]
    exact hs.size

/-- the straight line of `RET` -/
theorem must_retLine {g : Instruction} (hg : g ∈ env.jit.instrs) (hop : g.opcode = .ret)
    (hpc : env.jit.At g s.pc)
    (h : ∀ x n fl, env.jit.InScript x → env.jit.image.fetch x = some (.ret, n) →
      Must (Step env X) Q { s with
        ebp := s.mem.read32 s.esp + s.ebx, esp := s.esp + 4, flags := fl, pc := x }) :
    Must (Step env X) Q s := by
  have hcode : compileInstr env.jit.compiler env.jit.amx g = some emitRet := by
    unfold compileInstr controlCode
    rw [hop]
    rfl
  have hnat := hpc.native (by rw [hop]; simp)
  obtain ⟨e, hseg, -⟩ := Jit.code_of hg hnat hcode
  obtain ⟨x, hline, n, hf, -⟩ := seg_append.mp hseg
  exact must_line (s := s) (env.jit.inScript_native hnat) hline rfl inside_ret
    fun hinx => h x n _ hinx hf

/-- the straight line of `RETN`: STK goes behind the arguments, with the return address below -/
theorem must_retnLine {g : Instruction} (hg : g ∈ env.jit.instrs) (hop : g.opcode = .retn)
    (hpc : env.jit.At g s.pc) (hamx : s.vars.rib.amx = s.vars.amxPtr)
    (hcell : bytes (s.esp + 8 + s.mem.read32 (s.esp + 8)) 4 ⊆ env.amxMem)
    (h : ∀ x n fl, env.jit.InScript x → env.jit.image.fetch x = some (.ret, n) →
      let top := s.esp + 8 + s.mem.read32 (s.esp + 8) + 4
      Must (Step env X) Q { s with
        ebp := s.mem.read32 s.esp + s.ebx, edx := s.mem.read32 (s.esp + 4), esi := s.vars.amxPtr,
        edi := top - s.ebx, esp := top - 4, flags := fl,
        mem := s.mem.write32 (top - 4) (s.mem.read32 (s.esp + 4)),
        vars := { s.vars with amx := { s.vars.amx with stk := top - s.ebx } }, pc := x }) :
    Must (Step env X) Q s := by
  have hcode : compileInstr env.jit.compiler env.jit.amx g = some emitRetn := by
    unfold compileInstr controlCode
    rw [hop]
    rfl
  have hnat := hpc.native (by rw [hop]; simp)
  obtain ⟨e, hseg, -⟩ := Jit.code_of hg hnat hcode
  obtain ⟨x, hline, n, hf, -⟩ := seg_append.mp hseg
  obtain ⟨fl, hrun, -⟩ := retn_run env.jit.image.addr s hamx
  exact must_line (s := s) (env.jit.inScript_native hnat) hline hrun (inside_retn hamx hcell)
    fun hinx => h x n fl hinx hf

/-- `RET` -/
theorem must_retBack {g : Instruction} (hg : g ∈ env.jit.instrs) (hop : g.opcode = .ret)
    (hpc : env.jit.At g s.pc) (hs : Activation env k s) : Must (Step env X) (Unwound env k s) s := by
  refine must_retLine hg hop hpc fun x n fl hinx hf => ?_
  have h4 : s.esp + 4 = k.stk - 4 := by
    rw [hs.esp]
    exact sub_add_lit _ (by decide)
  refine must_ret hinx hf ?_ (.now ⟨?_, ?_, ?_, rfl⟩)
  · show env.jit.InScript (s.mem.read32 (s.esp + 4))
    rw [h4]
    exact hs.ret.2
  · show env.jit.At k.next (s.mem.read32 (s.esp + 4))
    rw [h4]
    exact hs.ret.1
  · show s.mem.read32 s.esp + s.ebx = k.frm
    rw [hs.esp, hs.ebx]
    exact hs.frm
  · show s.esp + 4 + 4 = k.stk
    rw [h4]
    exact BitVec.sub_add_cancel _ _

/-- `RETN` -/
theorem must_retn {g : Instruction} (hg : g ∈ env.jit.instrs) (hop : g.opcode = .retn)
    (hpc : env.jit.At g s.pc) (hs : Activation env k s) (hamx : s.vars.rib.amx = s.vars.amxPtr)
    (hcell : bytes (k.stk + k.size) 4 ⊆ env.amxMem) : Must (Step env X) (Resumed env k) s := by
  have h8 : s.esp + 8 = k.stk := by
    rw [hs.esp]
    exact BitVec.sub_add_cancel _ _
  have h4 : s.esp + 4 = k.stk - 4 := by
    rw [hs.esp]
    exact sub_add_lit _ (by decide)
  refine must_retnLine hg hop hpc hamx (by rw [h8, hs.size]; exact hcell) fun x n fl hinx hf => ?_
  rw [h8, h4, hs.size, hs.esp, hs.ebx, hs.frm]
  intro top
  have hcell' : top - 4 = k.stk + k.size := BitVec.add_sub_cancel _ _
  rw [hcell']
  have htop (m : Mem) : (m.write32 (k.stk + k.size) (s.mem.read32 (k.stk - 4))).read32 (k.stk + k.size) =
      s.mem.read32 (k.stk - 4) := read32_write32_self _ _ _
  refine must_ret hinx hf ?_ (.now ⟨?_, rfl, ?_, rfl⟩)
  · show env.jit.InScript ((s.mem.write32 (k.stk + k.size) _).read32 (k.stk + k.size))
    rw [htop]
    exact hs.ret.2
  · show env.jit.At k.next ((s.mem.write32 (k.stk + k.size) _).read32 (k.stk + k.size))
    rw [htop]
    exact hs.ret.1
  · rfl

/-- From `s`, control comes to the function `f`.  If its body leaves the frame as `PROC` has made it,
`RETN` and `RET` go back to the call site. -/
def Calls (env : Env) (R : Machine → Machine → Prop) (f : Instruction) (k : CallSite) (s : Machine) :
    Prop :=
  Must R (fun p => (∀ j ∈ env.jit.instrs, j.address = f.next → env.jit.At j p.pc) ∧
    Activation env k p ∧
    ∀ q, Relation.ReflTransGen R p q → Balanced p q → ∀ g ∈ env.jit.instrs, env.jit.At g q.pc →
      (g.opcode = .retn → Must R (Resumed env k) q) ∧
      (g.opcode = .ret → Must R (Unwound env k q) q)) s

theorem calls_of_atFunction {u : Machine} (hX : ∀ u v, Entry env u → X u v → Returned env u v)
    (hu : Entry env u) (hs : InFrame env u (env.mode u) s) (hin : env.jit.InScript s.pc)
    (hf : f ∈ env.jit.instrs) (hop : f.opcode = .proc) (hroom : env.AmxRoom k.stk)
    (hargs : bytes (k.stk + k.size) 4 ⊆ env.amxMem)
    (h : Must (Step env X) (AtFunction env f k) s) : Calls env (Step env X) f k s := by
  have hcell : bytes (k.stk - 8) 4 ⊆ env.amxMem := by
    refine Set.Subset.trans (bytes_below (i := 8) (by decide) ?_) hroom
    unfold need
    omega
  have hproc := (h.bind fun t ht => must_proc hf hop ht hcell).reached
  refine hproc.imp fun p hp => ?_
  obtain ⟨⟨hnext, hinp, hact⟩, hr⟩ := hp
  refine ⟨hnext, hact, fun q hq hbal g hg hpc => ?_⟩
  have hframe (hproc : g.opcode ≠ .proc) : InFrame env u (env.mode u) q :=
    hs.reach hX hu hin (hr.trans hq) (env.jit.inScript_native (hpc.native hproc))
  have hebx (hq : InFrame env u (env.mode u) q) : q.ebx = p.ebx :=
    hq.ebx.trans (hs.reach hX hu hin hr hinp).ebx.symm
  constructor
  · intro hgop
    have hq := hframe (by rw [hgop]; simp)
    exact must_retn hg hgop hpc (hbal.activation (hebx hq) hact) hq.amx hargs
  · intro hgop
    have hq := hframe (by rw [hgop]; simp)
    exact must_retBack hg hgop hpc (hbal.activation (hebx hq) hact)

/-- a call by hand: the return address has been pushed, and PRI is the address of the function -/
theorem must_handmade {r : Instruction} (hi : i ∈ env.jit.instrs) (hop : i.JumpsToPri)
    (hf : f ∈ env.jit.instrs) (hpri : s.eax = f.address) (hret : env.jit.native r.address = some s.top)
    (hpc : env.jit.At i s.pc) (hroom : env.AmxRoom s.esp) :
    Must (Step env X) (AtFunction env f ⟨r, s.ebx, s.esp + 4, s.ebp, s.mem.read32 (s.esp + 4)⟩) s := by
  obtain ⟨e, -, -, hjump⟩ := must_jumpPri (X := X) hi hop hpc hroom
  have hnat := lookup_decoded env.jit hf
  have h0 : getJITInstrPtr env.jit.instrTable f.address ≠ 0 := fun h0 => by
    rw [h0] at hnat
    exact env.jit.not_inScript env.null.1 (env.jit.inScript_native hnat)
  refine hjump.imp fun t ht => ?_
  obtain ⟨hpc', -, hpass⟩ := ht
  rw [hpri, if_neg h0] at hpc'
  have hread {n : Nat} (hn : n ≤ 4) : t.mem.read32 (s.esp + BitVec.ofNat 32 n) =
      s.mem.read32 (s.esp + BitVec.ofNat 32 n) := by
    have hw := env.window_le
    have hd := below_disjoint (p := s.esp) (n := env.need) (k := 8) (by unfold need; omega)
    refine EqOn.read32 hpass.mem (Set.subset_compl_iff_disjoint_left.mpr ?_)
    exact Set.disjoint_of_subset_right (bytes_sub (by omega)) hd
  have htop : t.top = s.top := by
    have h := hread (n := 0) (by decide)
    rw [show s.esp + BitVec.ofNat 32 0 = s.esp from add_zero _] at h
    unfold State.top
    rw [hpass.esp]
    exact h
  refine ⟨?_, hpass.ebx, ?_, hpass.ebp, ?_, hread (n := 4) (by decide)⟩
  · rw [hpc']
    exact hnat
  · rw [hpass.esp]
    exact (BitVec.add_sub_cancel _ _).symm
  · rw [htop]
    exact ⟨Jit.at_native hret, env.jit.inScript_native hret⟩

/-- **The ways to pass control.**  `JUMP.pri` and `SCTRL 6` go on at the instruction whose address is
PRI, or at the next one; `LCTRL 8` and `SCTRL 8` together go where `SCTRL 6` goes; a function that is
called by hand returns as one that `CALL` has called. -/
theorem indirect_transfers (env : Env) (C : Machine → Prop) (n : Nat) :
    (∀ i ∈ env.jit.instrs, i.JumpsToPri → ∀ s, env.jit.At i s.pc → env.AmxRoom s.esp →
      (∀ j ∈ env.jit.instrs, j.address = s.eax → Must (level env C n)
        (fun t => env.jit.native j.address = some t.pc ∧ t.eax = s.eax ∧ Passed env s t) s) ∧
      ((∀ j ∈ env.jit.instrs, j.address ≠ s.eax) → Must (level env C n)
        (fun t => (∀ j ∈ env.jit.instrs, j.address = i.next → env.jit.At j t.pc) ∧
          t.eax = s.eax ∧ Passed env s t) s)) ∧
    (∀ i ∈ env.jit.instrs, i.opcode = .lctrl → i.operand = 8 →
      ∀ j ∈ env.jit.instrs, j.opcode = .sctrl → j.operand = 8 →
      ∀ r ∈ env.jit.instrs,
      (∀ s, env.jit.At i s.pc → env.AmxRoom s.esp → s.eax = r.address → Must (level env C n)
        (fun t => (∀ j ∈ env.jit.instrs, j.address = i.next → env.jit.At j t.pc) ∧
          env.jit.native r.address = some t.eax ∧ Passed env s t) s) ∧
      (∀ s, env.jit.At j s.pc → env.jit.native r.address = some s.eax →
        Must (level env C n) (fun t => t = { s with pc := s.eax }) s)) ∧
    ∀ u, Entry env u → ∀ i ∈ env.jit.instrs, i.JumpsToPri →
      ∀ j ∈ env.jit.instrs, j.opcode = .call →
      ∀ f ∈ env.jit.instrs, f.opcode = .proc → f.address = j.operand - env.jit.amx.code →
      ∀ r ∈ env.jit.instrs, r.address = j.next →
      ∀ s c, InFrame env u (env.mode u) s → env.jit.At i s.pc → env.AmxRoom s.esp →
      s.eax = f.address → env.jit.native r.address = some s.top →
      InFrame env u (env.mode u) c → env.jit.At j c.pc → env.AmxRoom c.esp →
      c.esp = s.esp + 4 → c.ebp = s.ebp → c.mem.read32 c.esp = s.mem.read32 (s.esp + 4) →
      bytes (c.esp + c.mem.read32 c.esp) 4 ⊆ env.amxMem →
      let k : CallSite := ⟨r, dataBase u.vars, c.esp, c.ebp, c.mem.read32 c.esp⟩
      Calls env (level env C n) f k c ∧ Calls env (level env C n) f k s := by
  obtain ⟨X, hX, hret⟩ := @level_calls env C n
  rw [hX]
  refine ⟨fun i hi hop s hpc hroom => ?_, fun i hi hop h8 j hj hop' h8' r hr => ?_, ?_⟩
  · obtain ⟨e, hnext, hin, hjump⟩ := must_jumpPri (X := X) hi hop hpc hroom
    constructor
    · intro j hj hja
      have hnat := lookup_decoded env.jit hj
      have h0 : getJITInstrPtr env.jit.instrTable j.address ≠ 0 := fun h0 => by
        rw [h0] at hnat
        exact env.jit.not_inScript env.null.1 (env.jit.inScript_native hnat)
      refine hjump.imp fun t ht => ⟨?_, ht.2⟩
      rw [ht.1, ← hja, if_neg h0]
      exact hnat
    · intro hno
      refine hjump.imp fun t ht => ⟨?_, ht.2⟩
      rw [ht.1, if_pos (lookup_undecoded env.jit hno)]
      exact hnext
  · constructor
    · intro s hpc hroom hpri
      refine (must_lctrl hi hop h8 hpc hroom).imp fun t ht => ⟨ht.1, ?_, ht.2.2⟩
      rw [ht.2.1, hpri]
      exact lookup_decoded env.jit hr
    · intro s hpc hpri
      exact must_sctrl hj hop' h8' hpc (env.jit.inScript_native hpri)
  · intro u hu i hi hop j hj hcall f hf hproc hdest r hr hnext s c hs hpcs hrooms hpri hretr hc hpcc
      hroomc hesp hebp hsize hargs k
    have hins := env.jit.inScript_native (hpcs.native (by
      rcases hop with h | ⟨h, -⟩ <;> rw [h] <;> simp))
    have hinc := env.jit.inScript_native (hpcc.native (by rw [hcall]; simp))
    constructor
    · have h := must_call (X := X) hj hcall hf hdest hr hnext hpcc hroomc
      rw [hc.ebx] at h
      exact calls_of_atFunction hret hu hc hinc hf hproc hroomc hargs h
    · have h := must_handmade (X := X) hi hop hf hpri hretr hpcs hrooms
      rw [hs.ebx, ← hebp, ← hsize, ← hesp] at h
      exact calls_of_atFunction hret hu hs hins hf hproc hroomc hargs h

end Env

/-- `HALT 0; SCTRL 6; LCTRL 8; SCTRL 8; CALL 48; HALT 1; PROC; RETN`, with `main` at 8 -/
def jumpProgram : AmxRef where
  amx := sampleProgram.amx
  header := ⟨8, 0, 56, 0, 256, 8, 0, 0, 0⟩
  mem := (AmxRef.ofCells [120, 0, 32, 6, 31, 8, 32, 8, 49, 48, 120, 1, 46, 48]).mem

theorem jumpProgram_compiles :
    (compile plainCompiler jumpProgram fun _ _ => 1).isSome = true := by decide +kernel

def jumpJit : Jit :=
  .load plainCompiler jumpProgram 0x8000 jumpProgram_compiles (by decide +kernel)

theorem jumpJit_instrs : jumpJit.instrs = [⟨0, .halt, [0]⟩, ⟨8, .sctrl, [6]⟩, ⟨16, .lctrl, [8]⟩,
    ⟨24, .sctrl, [8]⟩, ⟨32, .call, [48]⟩, ⟨40, .halt, [1]⟩, ⟨48, .proc, []⟩, ⟨52, .retn, []⟩] := by
  decide +kernel

def jumpEnv : Env := jumpJit.process rfl rfl (by decide +kernel)

def jumpEntry : Machine :=
  { sampleEntry AMX_EXEC_MAIN 0 sampleProgram.amx with pc := (jumpJit.image.addr .exec).getD 0 }

namespace Env

theorem jumpEntry_entry : Entry jumpEnv jumpEntry := by
  have hexec : jumpJit.image.addr .exec = some jumpEntry.pc := by
    show jumpJit.image.addr .exec = some ((jumpJit.image.addr .exec).getD 0)
    decide +kernel
  have hsample : Entry sampleEnv (sampleEntry AMX_EXEC_MAIN 0 sampleProgram.amx) :=
    sampleEntry_entry (.inl rfl) rfl rfl rfl
  have htop : jumpEntry.mem.read32 jumpEntry.esp = -1 :=
    sampleEntry_top AMX_EXEC_MAIN 0 sampleProgram.amx
  exact process_entry hexec htop (.inl rfl) (.inl (read32_write32_self _ _ _)) rfl rfl rfl (.inl rfl)

/-- The return address 40 has been pushed, PRI is 48, and `SCTRL 6` comes next; in another state,
`CALL 48` does. -/
theorem indirect_transfers_sample : ∃ s c : Machine,
    jumpJit.At ⟨8, .sctrl, [6]⟩ s.pc ∧ jumpJit.At ⟨32, .call, [48]⟩ c.pc ∧
    Must (level jumpEnv (fun _ => True) 1) (fun t => jumpJit.native 48 = some t.pc) s ∧
    Calls jumpEnv (level jumpEnv (fun _ => True) 1) ⟨48, .proc, []⟩
      ⟨⟨40, .halt, [1]⟩, 0x18000, 0x180f4, 0x18100, 0⟩ c ∧
    Calls jumpEnv (level jumpEnv (fun _ => True) 1) ⟨48, .proc, []⟩
      ⟨⟨40, .halt, [1]⟩, 0x18000, 0x180f4, 0x18100, 0⟩ s := by
  have hu := jumpEntry_entry
  have h8 : jumpJit.native 8 = some 33124 := by decide +kernel
  have h32 : jumpJit.native 32 = some 33127 := by decide +kernel
  have h40 : jumpJit.native 40 = some 33128 := by decide +kernel
  have h48 : jumpJit.native 48 = some 33136 := by decide +kernel
  have hmem {i : Instruction} (hi : i ∈ [(⟨8, .sctrl, [6]⟩ : Instruction), ⟨32, .call, [48]⟩,
      ⟨40, .halt, [1]⟩, ⟨48, .proc, []⟩]) : i ∈ jumpEnv.jit.instrs := by
    show i ∈ jumpJit.instrs
    rw [jumpJit_instrs]
    simp only [List.mem_cons, List.not_mem_nil, or_false] at hi
    rcases hi with rfl | rfl | rfl | rfl <;> simp
  have hno : ¬ Continues jumpEnv jumpEntry := fun h => absurd h.2 (by decide)
  have haddr : jumpEnv.jit.entryAddress jumpEntry = 8 := by decide +kernel
  obtain ⟨t, -, ht⟩ := start_run (X := fun _ _ => False) hu (by decide) hno
    (by rw [haddr]; decide) (by rw [haddr]; exact h8)
  have hframe := ht.inFrame
  rw [← mode_start fun h => hno h.2] at hframe
  -- the state before `CALL`, with no arguments
  have hcell {a : Word} (ha : (a - 0x10000).toNat + 4 ≤ 0x10000) : bytes a 4 ⊆ jumpEnv.amxMem :=
    bytes_bytes ha
  have hwrite {a : Word} (m : Mem) (v : Word) (ha : (a - 0x10000).toNat + 4 ≤ 0x10000) :
      Set.EqOn (m.write32 a v) m jumpEnv.amxMemᶜ :=
    eqOn_write v (Set.disjoint_compl_right_iff_subset.mpr (hcell ha))
  set m := t.mem.write32 0x180f4 0 with hm
  have hc : InFrame jumpEnv jumpEntry (jumpEnv.mode jumpEntry)
      { t with esp := 0x180f4, mem := m, pc := 33127 } :=
    hframe.amxWork hu (hwrite _ _ (by decide)) rfl rfl rfl rfl rfl rfl rfl
  have hs : InFrame jumpEnv jumpEntry (jumpEnv.mode jumpEntry)
      { t with eax := 48, esp := 0x180f0, mem := m.write32 0x180f0 33128, pc := 33124 } :=
    hc.amxWork hu (hwrite _ _ (by decide)) rfl rfl rfl rfl rfl rfl rfl
  have hsize : m.read32 0x180f4 = 0 := read32_write32_self _ _ _
  have hsize' : (m.write32 0x180f0 33128).read32 0x180f4 = 0 := by
    rw [read32_write32_sep _ _ _ _ (by decide)]
    exact hsize
  have htop : (m.write32 0x180f0 33128).read32 0x180f0 = 33128 := read32_write32_self _ _ _
  have hroom {p : Word} (hp : p = 0x180f0 ∨ p = 0x180f4) : jumpEnv.AmxRoom p := by
    rcases hp with rfl | rfl <;> exact below_bytes (by decide) (by decide)
  obtain ⟨hjump, -, hcall⟩ := indirect_transfers jumpEnv (fun _ => True) 1
  have hj := (hjump _ (hmem (.head _)) (.inr ⟨rfl, rfl⟩)
    { t with eax := 48, esp := 0x180f0, mem := m.write32 0x180f0 33128, pc := 33124 }
    (Jit.at_native h8) (hroom (.inl rfl))).1 ⟨48, .proc, []⟩ (hmem (by simp)) rfl
  have hboth := hcall jumpEntry hu ⟨8, .sctrl, [6]⟩ (hmem (by simp)) (.inr ⟨rfl, rfl⟩)
    ⟨32, .call, [48]⟩ (hmem (by simp)) rfl ⟨48, .proc, []⟩ (hmem (by simp)) rfl (by decide)
    ⟨40, .halt, [1]⟩ (hmem (by simp)) (by decide)
    { t with eax := 48, esp := 0x180f0, mem := m.write32 0x180f0 33128, pc := 33124 }
    { t with esp := 0x180f4, mem := m, pc := 33127 }
    hs (Jit.at_native h8) (hroom (.inl rfl)) rfl (h40.trans (congrArg some htop.symm)) hc
    (Jit.at_native h32) (hroom (.inr rfl)) rfl rfl (hsize.trans hsize'.symm)
    (by
      show bytes (0x180f4 + m.read32 0x180f4) 4 ⊆ _
      rw [hsize]
      exact hcell (by decide))
  have hsite : (⟨⟨40, .halt, [1]⟩, dataBase jumpEntry.vars, 0x180f4, t.ebp, m.read32 0x180f4⟩ :
      CallSite) = ⟨⟨40, .halt, [1]⟩, 0x18000, 0x180f4, 0x18100, 0⟩ := by
    rw [hsize, ht.ebp]
    rfl
  dsimp only at hboth
  rw [hsite] at hboth
  exact ⟨_, _, Jit.at_native h8, Jit.at_native h32, hj.imp fun _ h => h.1, hboth⟩

end Env

end AmxJit
