import AmxJit.Runtime.Outcome

/-!
# Runs exist

The results on runs of `Exec` say nothing of a run that is stuck.  Here are runs that are not:

* `start_run`, `continue_run`   from the entry of `Exec` into the script;
* `step_on`, `step_call`        the steps of the script;
* `halt_run`                    from `HALT` to the return;
* `reach_proc`, `reach_ret`     `PROC`, and `RET` to the return;
* `request_entered`             from a native call to its callee;
* `Jit.process`, `sampleEnv`    a process, with a sample program.
-/

set_option linter.constructorNameAsVariable false

namespace AmxJit
open X86 Trans Reg

/-- the labels of the runtime where calls of the script arrive, and their code -/
def helpers (c : CompilerImpl) : List (Label × Buffer) :=
  [(.callReturn, asm callReturnError ++
      (if c.enableSleep then asm [.cmp edi AMX_ERR_SLEEP] ++ emit (.jcc .ne .execExit) else []) ++
      asm callReturnSync ++ label .execExit ++ asm execExitSwitch ++
      asm (emitDebugPrint c "ExecHelper: returned from entry point") ++
      asm [.pop edi, .pop esi] ++ emit .ret ++
      if c.enableSleep then emitExecContHelper c else []),
    (.haltHelper, (emitHaltHelper c).tail), (.jumpLookup, (emitJumpLookup c).tail),
    (.reverseJumpLookup, (emitReverseJumpLookup c).tail), (.jumpHelper, emitJumpHelper.tail),
    (.sysreqCHelper, (emitSysreqCHelper c).tail), (.sysreqDHelper, (emitSysreqDHelper c).tail)]

theorem helpers_infix (c : CompilerImpl) (n : Nat) :
    ∃ pre, emitRuntime c n = pre ++ (helpers c).flatMap fun p => .label p.1 :: p.2 := by
  refine ⟨emitRuntimeInfo ++ emitInstrTable n ++ emitExec c ++ (label .execHelper ++
    asm (emitDebugPrint c "ExecHelper()") ++
    asm (execAddress ++ execHelperSave ++ execHelperParams ++ execHelperSwitch ++
    execHelperReset) ++ emit (.callReg .eax)), ?_⟩
  unfold emitRuntime emitExecHelper helpers
  simp only [List.flatMap_cons, List.flatMap_nil, List.append_nil, List.append_assoc,
    List.cons_append]
  rfl

theorem helpers_code (c : CompilerImpl) : ∀ p ∈ helpers c, ∃ i, Item.instr i ∈ p.2 := by
  have htail {l : Label} {b : Buffer} {i : Instr Cell Label} (hi : Item.instr i ∈ b)
      (hl : b.head? = some (.label l)) : ∃ i, Item.instr i ∈ b.tail := by
    cases b with
    | nil => exact absurd hi List.not_mem_nil
    | cons x b =>
      cases hl
      exact ⟨i, (List.mem_cons.mp hi).resolve_left (by simp)⟩
  have hhalt : Item.instr (.jmp .execExit) ∈ emitHaltHelper c := by simp [emitHaltHelper, emit]
  have hlookup : Item.instr .ret ∈ emitJumpLookup c := by simp [emitJumpLookup, emitLookup, emit]
  have hreverse : Item.instr .ret ∈ emitReverseJumpLookup c := by
    simp [emitReverseJumpLookup, emitLookup, emit]
  have hjump : Item.instr .ret ∈ emitJumpHelper := by simp [emitJumpHelper, emit]
  have hsysreqC : Item.instr .ret ∈ emitSysreqCHelper c := by
    simp [emitSysreqCHelper, sysreqLeave, emit]
  have hsysreqD : Item.instr .ret ∈ emitSysreqDHelper c := by
    simp [emitSysreqDHelper, sysreqLeave, emit]
  intro p hp
  simp only [helpers, List.mem_cons, List.not_mem_nil, or_false] at hp
  rcases hp with rfl | rfl | rfl | rfl | rfl | rfl | rfl
  · exact ⟨.ret, by simp [emit]⟩
  · exact htail hhalt rfl
  · exact htail hlookup rfl
  · exact htail hreverse rfl
  · exact htail hjump rfl
  · exact htail hsysreqC rfl
  · exact htail hsysreqD rfl

/-- the calls into the runtime and the return into it have addresses of their own -/
theorem Jit.calls_inj (jit : Jit) : ∀ l ∈ Label.callReturn :: Env.scriptCalls,
    ∀ l' ∈ Label.callReturn :: Env.scriptCalls, jit.image.addr l = jit.image.addr l' → l = l' := by
  obtain ⟨post, hitems⟩ := jit.laid.items_eq
  obtain ⟨pre, hpre⟩ := helpers_infix jit.compiler jit.buffer.numEntries
  have hi : jit.image.items =
      pre ++ ((helpers jit.compiler).flatMap (fun p => .label p.1 :: p.2) ++ post) := by
    show jit.buffer.items = _
    rw [hitems, Jit.runtime, hpre, List.append_assoc]
  have hpair := jit.image.addr_pairwise hi (helpers_code jit.compiler)
  have hlabels : ((helpers jit.compiler).map Prod.fst).Pairwise
      fun l l' => jit.image.addr l ≠ jit.image.addr l' := List.pairwise_map.mpr hpair
  have hmem : ∀ l ∈ Label.callReturn :: Env.scriptCalls,
      l ∈ (helpers jit.compiler).map Prod.fst := by
    simp [helpers, Env.scriptCalls]
  intro l hl l' hl' he
  by_contra hne
  have hsymm : Std.Symm fun l l' => jit.image.addr l ≠ jit.image.addr l' := ⟨fun _ _ => Ne.symm⟩
  exact hlabels.forall (hmem l hl) (hmem l' hl') hne he

theorem Jit.calls_addr (jit : Jit) : ∀ l ∈ Label.callReturn :: Env.scriptCalls,
    ∃ a, jit.image.addr l = some a := by
  obtain ⟨post, hitems⟩ := jit.laid.items_eq
  obtain ⟨pre, hpre⟩ := helpers_infix jit.compiler jit.buffer.numEntries
  have hmem : ∀ l ∈ Label.callReturn :: Env.scriptCalls, ∃ p ∈ helpers jit.compiler, p.1 = l := by
    simp [helpers, Env.scriptCalls]
  intro l hl
  obtain ⟨p, hp, rfl⟩ := hmem l hl
  obtain ⟨ps, qs, hpq⟩ := List.append_of_mem hp
  have hi : jit.image.items = (pre ++ ps.flatMap fun p => .label p.1 :: p.2) ++
      .label p.1 :: (p.2 ++ (qs.flatMap fun p => .label p.1 :: p.2) ++ post) := by
    show jit.buffer.items = _
    rw [hitems, Jit.runtime, hpre, hpq]
    simp only [List.flatMap_append, List.flatMap_cons, List.append_assoc, List.cons_append]
  exact ⟨_, jit.image.addr_label hi⟩

/-- where a helper begins there is an instruction of the runtime -/
theorem Jit.helper_fetch {jit : Jit} {l : Label} (hl : l ∈ Env.scriptCalls) {a : Word}
    (ha : jit.image.addr l = some a) : ∃ r, jit.runtimeFetch a = some r := by
  have hfirst {x js : Code} {i : Instr Cell Label} {b : Buffer} {e : Word}
      (h : Seg jit.runtimeFetch jit.image.addr a (label l ++ (asm x ++ (asm (i :: js) ++ b))) e) :
      ∃ r, jit.runtimeFetch a = some r := by
    obtain ⟨-, h⟩ := seg_label.mp h
    cases x with
    | nil =>
      obtain ⟨c, hc, -⟩ := h
      exact ⟨_, hc⟩
    | cons j x =>
      obtain ⟨c, hc, -⟩ := h
      exact ⟨_, hc⟩
  have hpart {b : Buffer} (hin : b ∈ jit.parts) {is : Buffer} (hb : b = label l ++ is) :
      ∃ e, Seg jit.runtimeFetch jit.image.addr a (label l ++ is) e := by
    obtain ⟨x, e, h⟩ := jit.part (jit.infix_runtime hin (List.infix_refl b))
    rw [hb] at h
    have hx := (seg_label.mp h).1
    rw [ha] at hx
    cases hx
    exact ⟨e, h⟩
  simp only [Env.scriptCalls, List.mem_cons, List.not_mem_nil, or_false] at hl
  rcases hl with rfl | rfl | rfl | rfl | rfl
  · obtain ⟨e, h⟩ := hpart (b := emitHaltHelper jit.compiler) (by simp [Jit.parts])
      (by unfold emitHaltHelper; simp only [List.append_assoc]; rfl)
    exact hfirst h
  · obtain ⟨e, h⟩ := hpart (b := emitSysreqCHelper jit.compiler) (by simp [Jit.parts])
      (by unfold emitSysreqCHelper sysreqEnter; simp only [List.append_assoc]; rfl)
    exact hfirst h
  · obtain ⟨e, h⟩ := hpart (b := emitSysreqDHelper jit.compiler) (by simp [Jit.parts])
      (by unfold emitSysreqDHelper sysreqEnter; simp only [List.append_assoc]; rfl)
    exact hfirst h
  · obtain ⟨e, h⟩ := hpart (b := emitJumpHelper) (by simp [Jit.parts])
      (by unfold emitJumpHelper; simp only [List.append_assoc]; rfl)
    exact hfirst (x := []) h
  · obtain ⟨e, h⟩ := hpart (b := emitJumpLookup jit.compiler) (by simp [Jit.parts])
      (by unfold emitJumpLookup emitLookup; simp only [List.append_assoc]; rfl)
    exact hfirst (x := []) h

theorem Jit.callee_addr (jit : Jit) (f : Callee) : ∃ a, jit.image.addr f.helper = some a := by
  cases f with
  | callback =>
    obtain ⟨a, e, h⟩ := jit.part (jit.infix_runtime (by simp [Jit.parts])
      (List.infix_refl (emitSysreqCHelper jit.compiler)))
    unfold emitSysreqCHelper sysreqEnter at h
    simp only [List.append_assoc] at h
    exact ⟨a, (seg_label.mp h).1⟩
  | native =>
    obtain ⟨a, e, h⟩ := jit.part (jit.infix_runtime (by simp [Jit.parts])
      (List.infix_refl (emitSysreqDHelper jit.compiler)))
    unfold emitSysreqDHelper sysreqEnter at h
    simp only [List.append_assoc] at h
    exact ⟨a, (seg_label.mp h).1⟩

namespace Env
variable {env : Env} {X : Machine → Machine → Prop} {u s t : Machine} {i : Instr Cell Label}
  {n a : Word} {l : Label} {k : Mode}

/-- an instruction that stays in the script -/
theorem step_on (hin : env.jit.InScript s.pc) (hf : env.jit.image.fetch s.pc = some (i, n))
    (hstep : step env.jit.image.addr i n s = some t) (hm : Set.EqOn t.mem s.mem env.amxMemᶜ)
    (ht : env.jit.InScript t.pc) : Step env X s t := by
  have hno (l : Label) (hl : l ∈ scriptCalls) : env.jit.image.addr l ≠ some t.pc := by
    intro ha
    obtain ⟨r, hr⟩ := Jit.helper_fetch hl ha
    exact (env.jit.runtimeFetch_inside hr).1 ht
  refine .script hin hf hstep ⟨hm, .inl ht, fun l hl ha => absurd ha (hno l hl), fun ha => ?_⟩
  exact absurd ha (hno .sysreqDHelper (by simp [scriptCalls]))

/-- the call of a helper -/
theorem step_call (hin : env.jit.InScript s.pc)
    (hf : env.jit.image.fetch s.pc = some (.call l, n)) (hl : l ∈ scriptCalls)
    (ha : env.jit.image.addr l = some a)
    (hD : l = .sysreqDHelper → (s.push n).mem.read32 ((s.push n).esp + 4) ∈ env.natives)
    (hpush : bytes (s.esp - 4) 4 ⊆ env.amxMem)
    (hroom : env.AmxRoom (s.esp - 4 + helperArgs l)) : Step env X s { s.push n with pc := a } := by
  have hstep : step env.jit.image.addr (.call l : Instr Cell Label) n s =
      some { s.push n with pc := a } := by
    show (env.jit.image.addr l).map _ = _
    rw [ha]
    rfl
  have htop : (s.push n).mem.read32 (s.push n).esp = n := read32_write32_self _ _ _
  refine .script hin hf hstep ⟨?_, .inr (.inr ⟨l, hl, ha⟩), fun l' hl' ha' => ?_, fun hd => ?_⟩
  · exact eqOn_write n (Set.disjoint_compl_right_iff_subset.mpr hpush)
  · rw [env.jit.calls_inj l' (.tail _ hl') l (.tail _ hl) (ha'.trans ha.symm)]
    refine ⟨?_, hroom⟩
    show env.jit.InScript ((s.push n).mem.read32 (s.push n).esp)
    rw [htop]
    exact env.jit.inScript_next hin hf
  · exact hD (env.jit.calls_inj l (.tail _ hl) .sysreqDHelper (by simp [scriptCalls])
      (ha.trans hd.symm))

/-- `HALT` ends -/
theorem halt_run {i : Instruction} (hu : env.Entry u) (hs : InFrame env u k s)
    (hi : i ∈ env.jit.instrs) (hop : i.opcode = .halt) (hpc : env.jit.native i.address = some s.pc)
    (hroom : env.AmxRoom s.esp) :
    ∃ v, Relation.ReflTransGen (Step env X) s v ∧ v.pc = u.top := by
  have hin := env.jit.inScript_native hpc
  obtain ⟨b, e, hb, hseg, -⟩ := Jit.code_at hi hpc
  unfold compileInstr controlCode at hb
  rw [hop] at hb
  cases (show some (emitHalt i.operand) = some b from hb)
  obtain ⟨x, ⟨c, hf, hc⟩, n, hcall, -⟩ := seg_append.mp hseg
  obtain rfl : c = x := hc
  obtain ⟨a, ha⟩ := env.jit.haltHelper_addr
  have hin' := env.jit.inScript_next hin hf
  have hpush : bytes (s.esp - 4) 4 ⊆ env.amxMem := by
    refine Set.Subset.trans (bytes_below (i := 4) (le_refl 4) ?_) hroom
    unfold need
    omega
  have hpop : s.esp - 4 + 4 = s.esp := BitVec.sub_add_cancel _ _
  have hroom' : env.AmxRoom (s.esp - 4 + 4) := by
    rw [hpop]
    exact hroom
  have h1 : Step env X s { s with edi := i.operand, pc := c } :=
    step_on hin hf rfl (fun _ _ => rfl) hin'
  have h2 : Step env X { s with edi := i.operand, pc := c }
      { s with
        edi := i.operand, esp := s.esp - 4, mem := s.mem.write32 (s.esp - 4) n, pc := a } :=
    step_call hin' hcall (by simp [scriptCalls]) ha
      (by simp) hpush hroom'
  have hframe : InFrame env u k { s with
      edi := i.operand, esp := s.esp - 4, mem := s.mem.write32 (s.esp - 4) n, pc := a } :=
    hs.amxWork hu (eqOn_write n (Set.disjoint_compl_right_iff_subset.mpr hpush))
      rfl rfl rfl rfl rfl rfl rfl
  have hend : Until (Step env X) env.Plain (fun v => v.pc = u.top) { s with
      edi := i.operand, esp := s.esp - 4, mem := s.mem.write32 (s.esp - 4) n, pc := a } :=
    until_halt (env.drives X) hu hframe ha hroom' fun m fl y _ => .now rfl
  obtain ⟨v, hv, hpc⟩ := hend.run
  exact ⟨v, .head h1 (.head h2 hv), hpc⟩

/-- the return from the entry function -/
theorem step_callReturn {n : Word} (hin : env.jit.InScript s.pc)
    (hf : env.jit.image.fetch s.pc = some (.ret, n))
    (ha : env.jit.image.addr .callReturn = some s.top) :
    Step env X s { s with pc := s.top, esp := s.esp + 4 } := by
  have hno {l : Label} (hl : l ∈ scriptCalls) : env.jit.image.addr l ≠ some s.top := by
    intro h
    have heq := env.jit.calls_inj l (.tail _ hl) .callReturn (.head _) (h.trans ha.symm)
    rw [heq] at hl
    exact absurd hl (by simp [scriptCalls])
  refine .script hin hf rfl ⟨fun _ _ => rfl, .inr (.inl ha), fun l hl h => absurd h (hno hl), ?_⟩
  exact fun h => absurd h (hno (by simp [scriptCalls]))

/-- `PROC` -/
theorem reach_proc {x : Word} (hin : env.jit.InScript s.pc)
    (hproc : Seg env.jit.image.fetch env.jit.image.addr s.pc (asm emitProc) x)
    (hroom : env.AmxRoom s.esp) :
    ∃ q, Relation.ReflTransGen (Before (fun a => env.HostPc a.pc) (Step env X)) s q ∧
      env.jit.InScript q.pc ∧ q.pc = x ∧ q.esp = s.esp - 4 ∧ q.vars = s.vars ∧
      q.mem.read32 (q.esp + 4) = s.top := by
  obtain ⟨p1, hf1, p2, hf2, p3, hf3, hx⟩ := hproc
  obtain rfl : p3 = x := hx
  have hin1 := env.jit.inScript_next hin hf1
  have hin2 := env.jit.inScript_next hin1 hf2
  have hin3 := env.jit.inScript_next hin2 hf3
  have hno {b : Machine} (hb : env.jit.InScript b.pc) : ¬ env.HostPc b.pc :=
    fun hh => env.jit.not_inScript (env.outside_of_hostPc hh) hb
  have hcell : bytes (s.esp - 4) 4 ⊆ env.amxMem := by
    refine Set.Subset.trans (bytes_below (i := 4) (le_refl 4) ?_) hroom
    unfold need
    omega
  have hkeep (m : Mem) (v : Word) : Set.EqOn (m.write32 (s.esp - 4) v) m env.amxMemᶜ :=
    eqOn_write v (Set.disjoint_compl_right_iff_subset.mpr hcell)
  have hpop : s.esp - 4 + 4 = s.esp := BitVec.sub_add_cancel _ _
  have hzero : s.esp - 4 + 0 = s.esp - 4 := add_zero _
  have h1 : Step env X s { s with
      esp := s.esp - 4, mem := s.mem.write32 (s.esp - 4) s.ebp, pc := p1 } :=
    step_on hin hf1 rfl (hkeep _ _) hin1
  have h2 : Step env X { s with
      esp := s.esp - 4, mem := s.mem.write32 (s.esp - 4) s.ebp, pc := p1 } { s with
      esp := s.esp - 4, ebp := s.esp - 4, mem := s.mem.write32 (s.esp - 4) s.ebp, pc := p2 } :=
    step_on hin1 hf2 rfl (fun _ _ => rfl) hin2
  obtain ⟨m, fl, hm, h3⟩ : ∃ (m : Mem) (fl : Flags),
      Set.EqOn m s.mem (bytes (s.esp - 4) 4)ᶜ ∧ Step env X { s with
        esp := s.esp - 4, ebp := s.esp - 4, mem := s.mem.write32 (s.esp - 4) s.ebp,
        pc := p2 } { s with
        esp := s.esp - 4, ebp := s.esp - 4, flags := fl, mem := m, pc := p3 } := by
    refine ⟨_, _, ?_, step_on hin2 hf3 rfl ?_ hin3⟩
    · show Set.EqOn (Mem.write32 _ (s.esp - 4 + 0) _) _ _
      rw [hzero]
      exact (eqOn_write _ disjoint_compl_right).trans (eqOn_write _ disjoint_compl_right)
    · show Set.EqOn (Mem.write32 _ (s.esp - 4 + 0) _) _ _
      rw [hzero]
      exact hkeep _ _
  have htop : m.read32 (s.esp - 4 + 4) = s.top := by
    rw [hpop]
    refine EqOn.read32 hm ?_
    rw [Set.subset_compl_iff_disjoint_left]
    exact bytes_disjoint (by rw [show s.esp - (s.esp - 4) = 4 by abel]; decide)
      (by rw [show s.esp - 4 - s.esp = -4 by abel]; decide)
  exact ⟨_, .head ⟨hno hin, h1⟩ (.head ⟨hno hin1, h2⟩ (.head ⟨hno hin2, h3⟩ .refl)), hin3, rfl, rfl,
    rfl, htop⟩

/-- `RET` of the entry function -/
theorem reach_ret {y z : Word} (hin : env.jit.InScript s.pc)
    (hret : Seg env.jit.image.fetch env.jit.image.addr s.pc (asm [.pop ebp, .add ebp ebx]) y)
    (hf : env.jit.image.fetch y = some (.ret, z))
    (ha : env.jit.image.addr .callReturn = some (s.mem.read32 (s.esp + 4))) :
    ∃ t w, Relation.ReflTransGen (Step env X) s t ∧ env.jit.InScript t.pc ∧ Step env X t w ∧
      w.pc = s.mem.read32 (s.esp + 4) ∧ w.esp = s.esp + 8 ∧ w.vars = s.vars := by
  obtain ⟨p1, hf1, p2, hf2, hy⟩ := hret
  obtain rfl : p2 = y := hy
  have hin1 := env.jit.inScript_next hin hf1
  have hin2 := env.jit.inScript_next hin1 hf2
  have h1 : Step env X s { s with
      ebp := s.mem.read32 s.esp, esp := s.esp + 4, pc := p1 } :=
    step_on hin hf1 rfl (fun _ _ => rfl) hin1
  have h2 : Step env X { s with
      ebp := s.mem.read32 s.esp, esp := s.esp + 4, pc := p1 } { s with
      ebp := s.mem.read32 s.esp + s.ebx, esp := s.esp + 4,
      flags := s.flags.add (s.mem.read32 s.esp) s.ebx, pc := p2 } :=
    step_on hin1 hf2 rfl (fun _ _ => rfl) hin2
  have h3 := step_callReturn (X := X) (s := { s with
      ebp := s.mem.read32 s.esp + s.ebx, esp := s.esp + 4,
      flags := s.flags.add (s.mem.read32 s.esp) s.ebx, pc := p2 }) hin2 hf ha
  exact ⟨_, _, .head h1 (.head h2 .refl), hin2, h3, rfl, add_lit_lit s.esp 4 4, rfl⟩

/-- the state in which the helper is entered: `v` has been pushed, and the return address -/
def requested (s : Machine) (v ret a : Word) : Machine :=
  { s with
    esp := s.esp - 4 - 4, mem := (s.mem.write32 (s.esp - 4) v).write32 (s.esp - 4 - 4) ret, pc := a }

theorem sub_eight (s : Machine) (v ret a : Word) : (requested s v ret a).esp + 8 = s.esp := by
  show s.esp - 4 - 4 + 8 = s.esp
  rw [sub_sub_lit s.esp (c := 8) (by decide)]
  exact BitVec.sub_add_cancel _ _

/-- where a helper finds what has been pushed -/
theorem requested_arg (s : Machine) (v ret a : Word) :
    (requested s v ret a).mem.read32 ((requested s v ret a).esp + 4) = v := by
  show ((s.mem.write32 (s.esp - 4) v).write32 (s.esp - 4 - 4) ret).read32 (s.esp - 4 - 4 + 4) = v
  rw [BitVec.sub_add_cancel, read32_write32_sep _ _ _ _ (by
    rw [sub_sub_lit s.esp (c := 8) (by decide)]
    exact sep_sub s.esp (by decide)), read32_write32_self]

/-- **A native call**: the argument and the return address are pushed, and the helper calls its callee. -/
theorem request_entered {f : Callee} {o : Opnd Cell} {v ret : Word} (hu : env.Entry u)
    (hs : InFrame env u k s) (hin : env.jit.InScript s.pc)
    (hseg : Seg env.jit.image.fetch env.jit.image.addr s.pc (requestCode f o) ret)
    (hload : s.load o = some v) (hroom : env.AmxRoom s.esp)
    (hnative : f = .native → v ∈ env.natives) :
    ∃ t a, env.jit.InScript t.pc ∧ env.jit.image.addr f.helper = some a ∧ Step env X s t ∧
      Step env X t (requested s v ret a) ∧
      Until (Step env X) env.Plain (Entered env u k f (requested s v ret a))
        (requested s v ret a) := by
  obtain ⟨y, ⟨c, hf, hc⟩, n, hcall, hn⟩ := seg_append.mp hseg
  obtain rfl : c = y := hc
  obtain rfl : n = ret := hn
  obtain ⟨a, ha⟩ := env.jit.callee_addr f
  have hin' := env.jit.inScript_next hin hf
  have hneed : env.need = env.window + 256 := rfl
  have hcell {d : Nat} (h4 : 4 ≤ d) (h8 : d ≤ 8) : bytes (s.esp - BitVec.ofNat 32 d) 4 ⊆ env.amxMem :=
    Set.Subset.trans (bytes_below h4 (by omega)) hroom
  have h4' : bytes (s.esp - 4) 4 ⊆ env.amxMem := hcell (le_refl 4) (by decide)
  have h8' : bytes (s.esp - 4 - 4) 4 ⊆ env.amxMem := by
    rw [sub_sub_lit s.esp (c := 8) (by decide)]
    exact hcell (d := 8) (by decide) (le_refl 8)
  have hroom' : env.AmxRoom (s.esp - 4 - 4 + 8) := by
    rw [show s.esp - 4 - 4 + 8 = s.esp from sub_eight s v n a]
    exact hroom
  have hexec : step env.jit.image.addr (.push o : Instr Cell Label) c s =
      some { s with esp := s.esp - 4, mem := s.mem.write32 (s.esp - 4) v, pc := c } := by
    refine (step_of_exec (t := s.push v) _ ?_ c).trans rfl
    show (s.load o).map s.push = _
    rw [hload]
    rfl
  have hm4 : Set.EqOn (s.mem.write32 (s.esp - 4) v) s.mem env.amxMemᶜ :=
    eqOn_write v (Set.disjoint_compl_right_iff_subset.mpr h4')
  have hm8 : Set.EqOn (requested s v n a).mem (s.mem.write32 (s.esp - 4) v) env.amxMemᶜ :=
    eqOn_write n (Set.disjoint_compl_right_iff_subset.mpr h8')
  have hl : f.helper ∈ scriptCalls := by
    cases f <;> simp [scriptCalls, Callee.helper]
  have hargs : helperArgs f.helper = 8 := by
    cases f <;> rfl
  have harg := requested_arg s v n a
  have hcalled : Step env X { s with
      esp := s.esp - 4, mem := s.mem.write32 (s.esp - 4) v, pc := c } (requested s v n a) := by
    refine step_call hin' hcall hl ha (fun hd => ?_) h8' (by rw [hargs]; exact hroom')
    have hf' : f = .native := by
      cases f with
      | callback => exact absurd hd (by simp [Callee.helper])
      | native => rfl
    exact harg.symm ▸ hnative hf'
  have hret : env.jit.InScript (requested s v n a).top := by
    show env.jit.InScript (((s.mem.write32 (s.esp - 4) v).write32 (s.esp - 4 - 4) n).read32
      (s.esp - 4 - 4))
    rw [read32_write32_self]
    exact env.jit.inScript_next hin' hcall
  have hframe : InFrame env u k (requested s v n a) :=
    hs.amxWork hu (hm8.trans hm4) rfl rfl rfl rfl rfl rfl rfl
  refine ⟨_, a, hin', ha, step_on hin hf hexec hm4 hin', hcalled, ?_⟩
  cases f with
  | callback => exact until_sysreqC (env.drives X) hu hframe ha hret hroom' fun t ht => .now ht
  | native =>
    refine until_sysreqD (env.drives X) hu hframe ha hret hroom' ?_ fun t ht => .now ht
    exact harg.symm ▸ hnative rfl

/-- a native call calls its callee -/
theorem request_run {f : Callee} {o : Opnd Cell} {v x : Word} (hu : env.Entry u)
    (hs : InFrame env u k s) (hin : env.jit.InScript s.pc)
    (hseg : Seg env.jit.image.fetch env.jit.image.addr s.pc (requestCode f o) x)
    (hload : s.load o = some v) (ha : env.jit.image.addr f.helper = some a)
    (hroom : env.AmxRoom s.esp) (hnative : f = .native → v ∈ env.natives) :
    ∃ t, Invokes env (Step env X) f s t ∧ Entered env u k f { s with
      esp := s.esp - 8, mem := (s.mem.write32 (s.esp - 4) v).write32 (s.esp - 8) x,
      pc := a } t := by
  obtain ⟨s', a', hin', ha', h1, h2, hcalled⟩ :=
    request_entered (X := X) hu hs hin hseg hload hroom hnative
  obtain rfl : a' = a := Option.some.inj (ha'.symm.trans ha)
  have hno {b : Machine} (hb : env.jit.InScript b.pc) : ¬ env.HostPc b.pc :=
    fun hh => env.jit.not_inScript (env.outside_of_hostPc hh) hb
  obtain ⟨t, hr, ht⟩ := (hcalled.before (T := fun b => env.HostPc b.pc) fun b hb => hb.host).run
  refine ⟨t, ⟨.head ⟨hno hin, h1⟩ (.head ⟨hno hin', h2⟩ hr), ht.calling.pc⟩, ?_⟩
  unfold requested at ht
  rwa [sub_sub_lit s.esp (c := 8) (by decide)] at ht

/-- a callee puts the script to sleep -/
theorem sleep_run {f : Callee} (hX : ∀ u v, Entry env u → X u v → Returned env u v) (hu : env.Entry u)
    (hc : Calling env u k f s) (h : Step env X s t)
    (hsl : env.jit.HaltSleeps (f.resumed (u.esp - k.depth) t)) :
    ∃ v, Relation.ReflTransGen (Step env X) t v ∧ v.pc = u.top := by
  obtain ⟨ht, hback, hesp, hroom, -⟩ := hc.behind hu hX h
  have hend : Until (Step env X) env.Plain (fun v => v.pc = u.top) t := by
    refine until_return (env.drives X) hu f ht hback hesp hroom ?_ ?_ ?_
    · exact fun _ m fl _ => .now rfl
    · exact fun hno => absurd hsl hno
    · intro r hnone
      have h0 : AMX_ERR_SLEEP = AMX_ERR_NONE := hsl.2.symm.trans hnone
      exact absurd h0 (by decide)
  exact hend.run

/-- the public function is entered -/
theorem until_started {p : Word} (hu : env.Entry u) (hcheck : check u.vars.amx = none)
    (hno : ¬ Continues env u) (h0 : env.jit.entryAddress u ≠ 0)
    (hp : env.jit.native (env.jit.entryAddress u) = some p) :
    Until (Step env X) env.Plain (Started env u p) u := by
  obtain ⟨i, hi, ha⟩ := env.jit.native_decoded hp
  obtain ⟨p', hp', hmem⟩ := env.jit.native_mem hi
  rw [ha] at hp' hmem
  rw [hp] at hp'
  cases hp'
  have hl := lookup_address (instrTable_sorted env.jit) hmem
  refine until_exec (env.drives X) hu ?_ ?_ ?_ ?_
  · intro error t hc _
    rw [hcheck] at hc
    exact absurd hc (by simp)
  · exact fun _ _ h => absurd h h0
  · intro _ _ _ t ht
    rw [hl] at ht
    exact .now ht
  · exact fun _ hc => absurd hc hno

theorem start_run {p : Word} (hu : env.Entry u) (hcheck : check u.vars.amx = none)
    (hno : ¬ Continues env u) (h0 : env.jit.entryAddress u ≠ 0)
    (hp : env.jit.native (env.jit.entryAddress u) = some p) :
    ∃ t, Relation.ReflTransGen (Step env X) u t ∧ Started env u p t :=
  (until_started hu hcheck hno h0 hp).run

theorem continue_run (hu : env.Entry u) (hcheck : check u.vars.amx = none) (hc : Continues env u) :
    ∃ t, Relation.ReflTransGen (Step env X) u t ∧ Continued env u t := by
  have h : Until (Step env X) env.Plain (Continued env u) u := by
    refine until_exec (env.drives X) hu ?_ ?_ ?_ ?_
    · intro error t hc _
      rw [hcheck] at hc
      exact absurd hc (by simp)
    · exact fun _ hno => absurd hc hno
    · exact fun _ hno => absurd hc hno
    · exact fun _ _ t ht => .now ht
  exact h.run

/-- a public function that begins with `PROC`, up to the next instruction -/
theorem entry_proc {p x : Word} (hu : env.Entry u) (hcheck : check u.vars.amx = none)
    (hno : ¬ Continues env u) (h0 : env.jit.entryAddress u ≠ 0)
    (hp : env.jit.native (env.jit.entryAddress u) = some p)
    (hproc : Seg env.jit.image.fetch env.jit.image.addr p (asm emitProc) x)
    (hroom : env.AmxRoom (startEsp u - 4)) :
    ∃ q, Relation.ReflTransGen (Before (fun a => env.HostPc a.pc) (Step env X)) u q ∧
      env.jit.InScript q.pc ∧ q.pc = x ∧
      env.jit.image.addr .callReturn = some (q.mem.read32 (q.esp + 4)) ∧
      q.esp = startEsp u - 8 ∧ q.vars = startVars u := by
  have hstart := (until_started (X := X) hu hcheck hno h0 hp).before
    (T := fun a => env.HostPc a.pc) fun b hb => hb.host
  obtain ⟨t, hr, ht⟩ := hstart.run
  obtain ⟨q, hq, hin, hpcq, hespq, hvarsq, htop⟩ := @reach_proc env X t x
    (by rw [ht.pc]; exact env.jit.inScript_native hp) (by rw [ht.pc]; exact hproc)
    (by rw [ht.esp]; exact hroom)
  refine ⟨q, hr.trans hq, hin, hpcq, ?_, ?_, hvarsq.trans ht.vars⟩
  · rw [htop]
    exact ht.ret
  · rw [hespq, ht.esp]
    exact sub_sub_lit _ (by decide)

/-- back in `ExecHelper`, `Exec` returns -/
theorem return_run (hX : ∀ u v, Entry env u → X u v → Returned env u v) (hu : env.Entry u)
    (hr : Relation.ReflTransGen (Step env X) u s) (hin : env.jit.InScript s.pc) (hstep : Step env X s t)
    (hcall : env.jit.image.addr .callReturn = some t.pc) :
    InFrame env u (env.mode u) t ∧
      ∃ v, Relation.ReflTransGen (Step env X) t v ∧ v.pc = u.top := by
  have ht := ((spot_script hX hu hr hin).script hu hin hstep).1
  have h : Until (Step env X) env.Plain (fun v => v.pc = u.top) t :=
    until_callReturn (env.drives X) hu ht hcall fun m fl y _ => .now rfl
  exact ⟨ht, h.run⟩

/-- `Exec` of a public function `PROC; RET` returns -/
theorem entry_return {p x y z : Word} (hX : ∀ u v, Entry env u → X u v → Returned env u v)
    (hu : env.Entry u) (hcheck : check u.vars.amx = none) (hno : ¬ Continues env u)
    (h0 : env.jit.entryAddress u ≠ 0) (hp : env.jit.native (env.jit.entryAddress u) = some p)
    (hproc : Seg env.jit.image.fetch env.jit.image.addr p (asm emitProc) x)
    (hret : Seg env.jit.image.fetch env.jit.image.addr x (asm [.pop ebp, .add ebp ebx]) y)
    (hf : env.jit.image.fetch y = some (.ret, z)) (hroom : env.AmxRoom (startEsp u - 4)) :
    ∃ s v, Ended env (Step env X) u .return' s ∧ Relation.ReflTransGen (Step env X) s v ∧
      v.pc = u.top ∧ s.vars = startVars u ∧ s.esp = startEsp u ∧ s.ebx = dataBase u.vars := by
  obtain ⟨q, hq, hin, hpcq, hback, hespq, hvarsq⟩ :=
    entry_proc (X := X) hu hcheck hno h0 hp hproc hroom
  obtain ⟨w, s, hw, hinw, hstep, hspc, hesp, hvars⟩ := @reach_ret env X q y z hin
    (by rw [hpcq]; exact hret) hf hback
  have hcall : env.jit.image.addr .callReturn = some s.pc := by
    rw [hspc]
    exact hback
  have hreach : Relation.ReflTransGen (Step env X) u w := (Before.reach hq).trans hw
  obtain ⟨hs, v, hv, hpcv⟩ := return_run hX hu hreach hinw hstep hcall
  refine ⟨s, v, .return' hreach hinw hstep hcall, hv, hpcv, hvars.trans hvarsq, ?_, hs.ebx⟩
  rw [hesp, hespq]
  exact BitVec.sub_add_cancel _ _

end Env

/-! ## an instance -/

/-- a compiled program in a process, with its AMX memory and the native stack at fixed places -/
def Jit.process (jit : Jit) (hc : jit.compiler.address = plainCompiler.address)
    (hbase : jit.base = 0x8000) (hsize : jit.size < 0x8000) : Env where
  jit := jit
  amxMem := bytes 0x10000 0x10000
  lo := 0x100000
  top := 0x200000
  window := 0
  window_le := by decide
  callback := 0xFFFFFF10
  natives := ∅
  stack_sep := bytes_disjoint (by decide) (by decide)
  cfun_outside := by
    intro f
    have h : 0x8000 ≤ (plainCompiler.address f - 0x8000 : Word).toNat := by
      cases f <;> decide
    show jit.size < (jit.compiler.address f - jit.base).toNat
    rw [hc, hbase]
    exact lt_of_lt_of_le hsize h
  cfun_inj := by
    rw [hc]
    intro f g
    cases f <;> cases g <;> decide
  callback_outside := by
    show jit.size < (0xFFFFFF10 - jit.base).toNat
    rw [hbase]
    exact lt_of_lt_of_le hsize (by decide)
  callback_ne := by
    rw [hc]
    intro f
    cases f <;> decide
  natives_outside := fun a ha => ha.elim
  natives_ne := fun a ha => ha.elim
  null := by
    refine ⟨?_, by decide, fun h => h.elim, ?_⟩
    · show jit.size < (0 - jit.base).toNat
      rw [hbase]
      exact lt_of_lt_of_le hsize (by decide)
    · rw [hc]
      intro f
      cases f <;> decide

def sleepCompiler : CompilerImpl := { plainCompiler with enableSleep := true }

/-- `HALT 0; SYSREQ.PRI; HALT 12; SYSREQ.PRI; HALT 0; HALT 5; PROC; RET`, the public functions 20,
12, 32, 40 and 4, and `main` at 8 -/
def sampleProgram : AmxRef where
  amx := { (AmxRef.ofCells []).amx with data := 0x18000, callback := 0xFFFFFF10 }
  header := ⟨8, 0, 48, 0, 256, 8, 48, 88, 88⟩
  mem := (AmxRef.ofCells [120, 0, 122, 120, 12, 122, 120, 0, 120, 5, 46, 47,
    20, 0, 12, 0, 32, 0, 40, 0, 4, 0]).mem

theorem sampleProgram_compiles :
    (compile sleepCompiler sampleProgram fun _ _ => 1).isSome = true := by decide +kernel

def sampleJit : Jit :=
  .load sleepCompiler sampleProgram 0x8000 sampleProgram_compiles (by decide +kernel)

theorem sampleJit_instrs : sampleJit.instrs = [⟨0, .halt, [0]⟩, ⟨8, .sysreqPri, []⟩,
    ⟨12, .halt, [12]⟩, ⟨20, .sysreqPri, []⟩, ⟨24, .halt, [0]⟩, ⟨32, .halt, [5]⟩, ⟨40, .proc, []⟩,
    ⟨44, .ret, []⟩] := by decide +kernel

def sampleEnv : Env := sampleJit.process rfl rfl (by decide +kernel)

/-- a call of `Exec(index, retval)` by a function at the address -1 -/
def sampleEntry (index retval : Word) (a : Amx) : Machine where
  eax := 0
  ecx := 0
  edx := 0
  ebx := 2
  esp := 0x180000
  ebp := 3
  esi := 4
  edi := 5
  flags := ⟨false, false, false, false, false, false⟩
  mem := ((sampleProgram.mem.write32 0x180000 (-1)).write32 0x180004 index).write32 0x180008 retval
  vars := ⟨⟨0, 1, 0, 0, 0, 0, 6, 7, 8, 9, 0, 0⟩, a, sampleProgram.header, 1, fun _ _ n => (n, 0), 0⟩
  pc := (sampleJit.image.addr .exec).getD 0

namespace Env
variable {X : Machine → Machine → Prop} {k : Mode}

theorem process_entry {jit : Jit} {hc : jit.compiler.address = plainCompiler.address}
    {hbase : jit.base = 0x8000} {hsize : jit.size < 0x8000} {u : Machine}
    (hpc : jit.image.addr .exec = some u.pc)
    (htop : u.top = -1) (hesp : u.esp = 0x180000 ∨ u.esp = 0x170000)
    (hr : u.mem.read32 (u.esp + 8) = 0 ∨ u.mem.read32 (u.esp + 8) = 0x300000)
    (hamx : u.vars.rib.amx = u.vars.amxPtr) (hcb : u.vars.amx.callback = 0xFFFFFF10)
    (hdata : u.vars.amx.data = 0x18000) (hstk : u.vars.amx.stk = 256 ∨ u.vars.amx.stk = 248) :
    Entry (jit.process hc hbase hsize) u := by
  refine ⟨hpc, ?_, ?_, ?_, ?_, ?_, hamx, hcb, ?_⟩
  · rw [htop]
    refine ⟨?_, show (-1 : Word) ≠ 0xFFFFFF10 by decide, fun h => h.elim, fun f => ?_⟩
    · show jit.size < (-1 - jit.base).toNat
      rw [hbase]
      exact lt_of_lt_of_le hsize (by decide)
    · show -1 ≠ jit.compiler.address f
      rw [hc]
      cases f <;> decide
  · rw [htop]
    decide
  · show 256 ≤ (u.esp - 0x100000 : Word).toNat ∧
      (u.esp - 0x100000 : Word).toNat ≤ (0x200000 - 0x100000 : Word).toNat
    rcases hesp with h | h <;> rw [h] <;> decide
  · show 12 ≤ (0x200000 - u.esp : Word).toNat
    rcases hesp with h | h <;> rw [h] <;> decide
  · show u.mem.read32 (u.esp + 8) = 0 ∨ Disjoint (bytes (u.mem.read32 (u.esp + 8)) 4) _
    refine hr.imp id fun h => ?_
    rw [h]
    have hout {p : Word} (hp : p = 0x180000 ∨ p = 0x170000) :
        Disjoint (bytes 0x300000 4) (below (p + 12) 268) := by
      rcases hp with rfl | rfl
      · exact (below_disjoint (p := 0x18000c) (k := 0x1FFFFC) (by decide)).symm.mono_left
          (bytes_bytes (by decide))
      · exact (below_disjoint (p := 0x17000c) (k := 0x1FFFFC) (by decide)).symm.mono_left
          (bytes_bytes (by decide))
    exact hout hesp
  · show below (dataBase u.vars + u.vars.amx.stk) 256 ⊆ bytes 0x10000 0x10000
    have hb : dataBase u.vars = 0x18000 := by
      unfold dataBase
      rw [hdata]
      rfl
    rw [hb]
    rcases hstk with h | h <;> rw [h] <;> exact below_bytes (by decide) (by decide)

theorem sample_entry {u : Machine} (hpc : u.pc = (sampleJit.image.addr .exec).getD 0)
    (htop : u.top = -1) (hesp : u.esp = 0x180000 ∨ u.esp = 0x170000)
    (hr : u.mem.read32 (u.esp + 8) = 0 ∨ u.mem.read32 (u.esp + 8) = 0x300000)
    (hamx : u.vars.rib.amx = u.vars.amxPtr) (hcb : u.vars.amx.callback = 0xFFFFFF10)
    (hdata : u.vars.amx.data = 0x18000) (hstk : u.vars.amx.stk = 256 ∨ u.vars.amx.stk = 248) :
    Entry sampleEnv u := by
  have hexec : sampleJit.image.addr .exec = some u.pc := by
    rw [hpc]
    show sampleJit.image.addr .exec = some ((sampleJit.image.addr .exec).getD 0)
    decide +kernel
  exact process_entry hexec htop hesp hr hamx hcb hdata hstk

theorem sampleEntry_top (index retval : Word) (a : Amx) :
    (sampleEntry index retval a).top = -1 := by
  show (Mem.write32 _ _ _).read32 0x180000 = _
  rw [read32_write32_sep _ _ _ _ (by decide), read32_write32_sep _ _ _ _ (by decide),
    read32_write32_self]

theorem sampleEntry_entry {index retval : Word} {a : Amx}
    (hr : retval = 0 ∨ retval = 0x300000) (hcb : a.callback = 0xFFFFFF10) (hdata : a.data = 0x18000)
    (hstk : a.stk = 256) : Entry sampleEnv (sampleEntry index retval a) := by
  have hret : (sampleEntry index retval a).mem.read32 0x180008 = retval := read32_write32_self _ _ _
  refine sample_entry rfl (sampleEntry_top _ _ _) (.inl rfl) ?_ rfl hcb hdata (.inl hstk)
  show (sampleEntry index retval a).mem.read32 0x180008 = 0 ∨
    (sampleEntry index retval a).mem.read32 0x180008 = 0x300000
  rw [hret]
  exact hr

/-- the end of a run in front of a `HALT` -/
theorem sample_halt {i : Instruction} (hu : sampleEnv.Entry u) (hs : InFrame sampleEnv u k s)
    (hi : i ∈ sampleJit.instrs) (hop : i.opcode = .halt)
    (hpc : sampleJit.native i.address = some s.pc) (hroom : sampleEnv.AmxRoom s.esp) :
    ∃ v, Relation.ReflTransGen (Step sampleEnv X) s v ∧ v.pc = u.top :=
  halt_run hu hs hi hop hpc hroom

/-- `Exec` of the public function 32 ends with the error 5 -/
theorem sample_abort {retval : Word} (hretval : retval = 0 ∨ retval = 0x300000) (C : Machine → Prop)
    (n : Nat) :
    let u := sampleEntry 2 retval sampleProgram.amx
    ∃ (ret : Word) (s v : Machine), Started sampleEnv u 33207 s ∧
      Ended sampleEnv (level sampleEnv C n) u (.halt 5 ret) s ∧
      Relation.ReflTransGen (level sampleEnv C n) s v ∧ v.pc = u.top := by
  intro u
  have hu : Entry sampleEnv u := sampleEntry_entry hretval rfl rfl rfl
  have haddr : sampleEnv.jit.entryAddress u = 32 := by
    rcases hretval with rfl | rfl <;> decide +kernel
  have hindex : u.mem.read32 (u.esp + 4) = 2 := by
    rcases hretval with rfl | rfl <;> decide
  have hp : sampleJit.native 32 = some 33207 := by decide +kernel
  have hi : (⟨32, .halt, [5]⟩ : Instruction) ∈ sampleJit.instrs := by
    rw [sampleJit_instrs]
    simp
  obtain ⟨X, hX, -⟩ := @level_calls sampleEnv C n
  rw [hX]
  have hno : ¬ Continues sampleEnv u := fun h => absurd (hindex.symm.trans h.2) (by decide)
  have hcheck : check u.vars.amx = none := by
    rcases hretval with rfl | rfl <;> decide
  obtain ⟨t, hr, ht⟩ := start_run (X := X) hu hcheck hno (by rw [haddr]; decide)
    (by rw [haddr]; exact hp)
  have hstart : startEsp u - 4 = 0x180f8 := by
    rcases hretval with rfl | rfl <;> decide
  have hroom : sampleEnv.AmxRoom t.esp := by
    rw [ht.esp, hstart]
    exact below_bytes (by decide) (by decide)
  have hpc : sampleJit.native 32 = some t.pc := by
    rw [ht.pc]
    exact hp
  obtain ⟨v, hv, hpcv⟩ := sample_halt (X := X) hu ht.inFrame hi rfl hpc hroom
  obtain ⟨ret, hret⟩ := Jit.pushes_halt hi rfl
  have hend : Ended sampleEnv (Step sampleEnv X) u (.halt (Instruction.operand ⟨32, .halt, [5]⟩) ret) t :=
    .halt hr hi rfl hpc hret
  exact ⟨ret, t, v, ht, hend, hv, hpcv⟩

theorem sample_exec (C : Machine → Prop) (n : Nat) :
    ∃ v, Exec (level sampleEnv C n) (sampleEntry 2 0 sampleProgram.amx) v := by
  obtain ⟨ret, s, v, -, hs, hr, hpc⟩ := sample_abort (.inl rfl) C n
  exact ⟨v, hs.reach.trans hr, hpc⟩

/-- the code of the public function 40, `PROC; RET` -/
theorem sample_proc_seg : sampleJit.native 40 = some 33216 ∧
    Seg sampleJit.image.fetch sampleJit.image.addr 33216 (asm emitProc) 33219 ∧
    Seg sampleJit.image.fetch sampleJit.image.addr 33219 (asm [.pop ebp, .add ebp ebx]) 33221 ∧
    sampleJit.image.fetch 33221 = some (.ret, 33222) := by
  refine ⟨by decide +kernel, ?_, ?_, by decide +kernel⟩
  · exact ⟨33217, by decide +kernel, 33218, by decide +kernel, 33219, by decide +kernel, rfl⟩
  · exact ⟨33220, by decide +kernel, 33221, by decide +kernel, rfl⟩

/-- the function up to its `RET` -/
theorem sample_proc (hu : Entry sampleEnv u) (hcheck : check u.vars.amx = none)
    (hno : ¬ Continues sampleEnv u) (haddr : sampleEnv.jit.entryAddress u = 40)
    (hroom : sampleEnv.AmxRoom (startEsp u - 4)) :
    ∃ q, Relation.ReflTransGen (Before (fun a => sampleEnv.HostPc a.pc) (Step sampleEnv X)) u q ∧
      q.pc = 33219 ∧ sampleEnv.jit.image.addr .callReturn = some (q.mem.read32 (q.esp + 4)) ∧
      q.esp = startEsp u - 8 ∧ q.vars = startVars u := by
  obtain ⟨hp, hproc, -, -⟩ := sample_proc_seg
  obtain ⟨q, hq, -, h⟩ := entry_proc (X := X) hu hcheck hno (by rw [haddr]; decide)
    (by rw [haddr]; exact hp) hproc hroom
  exact ⟨q, hq, h⟩

/-- its `RET` -/
theorem sample_ret {q : Machine} (hpc : q.pc = 33219)
    (hback : sampleEnv.jit.image.addr .callReturn = some (q.mem.read32 (q.esp + 4))) :
    ∃ w s, Relation.ReflTransGen (Step sampleEnv X) q w ∧ sampleEnv.jit.InScript w.pc ∧
      Step sampleEnv X w s ∧ sampleEnv.jit.image.addr .callReturn = some s.pc ∧
      s.esp = q.esp + 8 ∧ s.vars = q.vars := by
  have hp : sampleJit.native 44 = some 33219 := by decide +kernel
  obtain ⟨-, -, hseg, hf⟩ := sample_proc_seg
  obtain ⟨w, s, hw, hin, hstep, hspc, hesp, hvars⟩ := @reach_ret sampleEnv X q _ _
    (by rw [hpc]; exact sampleJit.inScript_native hp) (by rw [hpc]; exact hseg) hf hback
  refine ⟨w, s, hw, hin, hstep, ?_, hesp, hvars⟩
  rw [hspc]
  exact hback

/-- `Exec` of the public function 40 returns -/
theorem sample_return :
    let u := sampleEntry 3 0 sampleProgram.amx
    ∃ s v, Entry sampleEnv u ∧ Ended sampleEnv (level sampleEnv (fun _ => True) 0) u .return' s ∧
      Relation.ReflTransGen (level sampleEnv (fun _ => True) 0) s v ∧ v.pc = u.top ∧
      s.vars = startVars u ∧ s.esp - s.ebx = 252 := by
  intro u
  have hu : Entry sampleEnv u := sampleEntry_entry (.inl rfl) rfl rfl rfl
  obtain ⟨X, hX, hret⟩ := @level_calls sampleEnv (fun _ => True) 0
  rw [hX]
  obtain ⟨hp, hproc, hseg, hf⟩ := sample_proc_seg
  have haddr : sampleEnv.jit.entryAddress u = 40 := by decide +kernel
  obtain ⟨s, v, hend, hv, hpcv, hvars, hesp, hebx⟩ := entry_return hret hu (by decide)
    (fun h => absurd h.2 (by decide)) (by rw [haddr]; decide) (by rw [haddr]; exact hp) hproc hseg hf
    (below_bytes (by decide) (by decide))
  refine ⟨s, v, hu, hend, hv, hpcv, hvars, ?_⟩
  rw [hesp, hebx]
  decide

/-- the AMX of the sample, asleep in front of `HALT 12` with PRI = 77 -/
def asleep : Amx := { sampleProgram.amx with cip := 12, pri := 77 }

/-- `Exec(AMX_EXEC_CONT)` goes on there and sleeps again -/
theorem sample_continue (C : Machine → Prop) (n : Nat) :
    let u := sampleEntry AMX_EXEC_CONT 0x300000 asleep
    ∃ (ret : Word) (s v : Machine), Entry sampleEnv u ∧
      Ended sampleEnv (level sampleEnv C n) u (.halt AMX_ERR_SLEEP ret) s ∧
      Relation.ReflTransGen (level sampleEnv C n) s v ∧ v.pc = u.top ∧ s.eax = 77 ∧
      getANXAddressByJITInstrPtr sampleJit.instrTable ret = 20 := by
  intro u
  have hu : Entry sampleEnv u := sampleEntry_entry (.inr rfl) rfl rfl rfl
  have hcheck : check u.vars.amx = none := by decide
  have hcont : Continues sampleEnv u := ⟨rfl, by decide⟩
  have hp : sampleJit.native 12 = some 33201 := by decide +kernel
  have hi : (⟨12, .halt, [12]⟩ : Instruction) ∈ sampleJit.instrs := by
    rw [sampleJit_instrs]
    simp
  have hret : sampleJit.Pushes ⟨12, .halt, [12]⟩ 33203 := by
    refine ⟨[.mov edi (12 : Word)], 33201, 33202, .haltHelper, by decide, rfl, hp, ?_, ?_⟩
    · exact ⟨33202, by decide +kernel, rfl⟩
    · decide +kernel
  obtain ⟨X, hX, -⟩ := @level_calls sampleEnv C n
  rw [hX]
  obtain ⟨t, hr, ht⟩ := continue_run (X := X) hu hcheck hcont
  have hroom : sampleEnv.AmxRoom t.esp := by
    rw [ht.esp]
    exact below_bytes (by decide) (by decide)
  have hpc : sampleJit.native 12 = some t.pc := by
    rw [ht.pc, hp]
    decide +kernel
  obtain ⟨v, hv, hpcv⟩ := sample_halt (X := X) hu ht.inFrame hi rfl hpc hroom
  have hend : Ended sampleEnv (Step sampleEnv X) u
      (.halt (Instruction.operand ⟨12, .halt, [12]⟩) 33203) t := .halt hr hi rfl hpc hret
  exact ⟨33203, t, v, hu, hend, hv, hpcv, ht.eax, by decide +kernel⟩

/-- `Exec` of a function that begins with `SYSREQ.PRI` calls the callback -/
theorem sample_sysreq {address p x : Word} (hu : sampleEnv.Entry u) (hcheck : check u.vars.amx = none)
    (hno : ¬ Continues sampleEnv u) (haddr : sampleJit.entryAddress u = address)
    (h : (address, p, x) ∈ [((8 : Word), (33199 : Word), (33201 : Word)), (20, 33203, 33205)])
    (hroom : sampleEnv.AmxRoom (startEsp u - 4)) :
    ∃ s t, Started sampleEnv u p s ∧ Relation.ReflTransGen (Step sampleEnv X) u s ∧
      Invokes sampleEnv (Step sampleEnv X) .callback s t ∧
      Entered sampleEnv u .start .callback { s with
        esp := s.esp - 8, mem := (s.mem.write32 (s.esp - 4) s.eax).write32 (s.esp - 8) x,
        pc := 33105 } t := by
  have hp : address ≠ 0 ∧ sampleJit.native address = some p ∧
      Seg sampleJit.image.fetch sampleJit.image.addr p
        (asm [.push eax] ++ emit (.call .sysreqCHelper)) x := by
    simp only [List.mem_cons, List.not_mem_nil, or_false, Prod.mk.injEq] at h
    rcases h with ⟨rfl, rfl, rfl⟩ | ⟨rfl, rfl, rfl⟩
    · exact ⟨by decide, by decide +kernel, 33200, by decide +kernel, 33201, by decide +kernel, rfl⟩
    · exact ⟨by decide, by decide +kernel, 33204, by decide +kernel, 33205, by decide +kernel, rfl⟩
  obtain ⟨h0, hnat, hseg⟩ := hp
  have ha : sampleJit.image.addr .sysreqCHelper = some 33105 := by decide +kernel
  subst haddr
  obtain ⟨s, hr, hs⟩ := start_run (X := X) hu hcheck hno h0 hnat
  have hpc : s.pc = p := hs.pc
  obtain ⟨t, hrt, ht⟩ := request_run (X := X) (s := s) (f := .callback) (o := .reg eax) (x := x) hu
    hs.inFrame (by rw [hpc]; exact sampleJit.inScript_native hnat) (by rw [hpc]; exact hseg) rfl ha
    (by rw [hs.esp]; exact hroom) (by simp)
  exact ⟨s, t, hs, hr, hrt, ht⟩

end Env

end AmxJit
