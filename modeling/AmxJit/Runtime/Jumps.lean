import AmxJit.Runtime.Ends

/-!
# Indirect jumps

* `until_jumpHelper`     `OP_JUMP_PRI` and `OP_SCTRL 6`, from the first instruction of the helper;
* `until_scriptLookup`   `OP_LCTRL 8`, from the first instruction of `JumpLookup`.
-/

set_option linter.constructorNameAsVariable false

namespace AmxJit
open X86 Trans Reg

namespace Env
variable {env : Env} {R : Machine → Machine → Prop} {P Q : Machine → Prop} {s : Machine}

theorem jumpTest_run (adr : Label → Option Word) (s : Machine) :
    ∃ fl : Flags, fl.zf = decide (s.eax = 0) ∧
      runSeq adr ([.mov edx eax, .pop eax, .test edx edx] : Code) s = some { s with
        edx := s.eax, eax := s.top, esp := s.esp + 4, flags := fl } := by
  refine ⟨s.flags.logic (s.eax &&& s.eax), test_e _ _, ?_⟩
  simp only [runSeq_cons, runSeq_nil, exec, State.load, State.store, State.get, State.set, State.top,
    Option.bind_some, Option.map_some]

theorem leaEsp_run (adr : Label → Option Word) (s : Machine) (d : Word) :
    runSeq adr ([.lea esp (ptr esp d)] : Code) s = some { s with esp := s.esp + d } := by
  simp only [runSeq_cons, runSeq_nil, exec, State.get, State.set, State.ea, ptr, Option.bind_some]

/-- **`JumpHelper`** goes on at the instruction whose address is PRI, or returns. -/
theorem until_jumpHelper (hD : env.Drives R P) (hpc : env.jit.image.addr .jumpHelper = some s.pc)
    (h : ∀ (fl : Flags) (m : Mem), Set.EqOn m s.mem (below s.esp (env.window + 40))ᶜ →
      let a := getJITInstrPtr env.jit.instrTable s.eax
      Until R P Q { s with
        edx := a, esp := s.esp + 4, flags := fl, mem := m, pc := if a = 0 then s.top else a }) :
    Until R P Q s := by
  have hin : emitJumpHelper <:+: env.jit.runtime :=
    env.jit.infix_runtime (by simp [Jit.parts]) (List.infix_refl _)
  obtain ⟨a, e, hseg⟩ := env.jit.part hin
  unfold emitJumpHelper at hseg
  simp only [List.append_assoc] at hseg
  obtain ⟨hl, hseg⟩ := seg_label.mp hseg
  obtain rfl : s.pc = a := Option.some.inj (hpc.symm.trans hl)
  obtain ⟨x1, hs1, hseg⟩ := seg_append.mp hseg
  obtain ⟨x2, hs2, hseg⟩ := seg_append.mp hseg
  obtain ⟨x3, hs3, hseg⟩ := seg_append.mp hseg
  obtain ⟨x4, hs4, hseg⟩ := seg_append.mp hseg
  obtain ⟨x5, hs5, hseg⟩ := seg_append.mp hseg
  obtain ⟨x6, ⟨n, hf, -⟩, hseg⟩ := seg_append.mp hseg
  obtain ⟨hinvalid, n', hret, -⟩ := seg_label.mp hseg
  have hw := env.window_le
  set p := getJITInstrPtr env.jit.instrTable s.eax with hp
  have hpush : runSeq env.jit.image.addr ([.push eax] : Code) s = some (s.push s.eax) := rfl
  refine until_run hD.driven hD.passes hs1 rfl hpush ?_
  refine until_jumpLookup hD hs2 fun fl m _ hm => ?_
  dsimp only [State.push] at hm ⊢
  -- what is on the stack
  have hpushed : Set.EqOn (s.mem.write32 (s.esp - 4) s.eax) s.mem (below s.esp 4)ᶜ :=
    eqOn_write s.eax (Set.disjoint_compl_right_iff_subset.mpr
      (bytes_below (p := s.esp) (i := 4) (le_refl 4) (le_refl 4)))
  have hmem : Set.EqOn m s.mem (below s.esp (env.window + 40))ᶜ := by
    refine (hm.mono (Set.compl_subset_compl.mpr ?_)).trans
      (hpushed.mono (Set.compl_subset_compl.mpr (below_mono (by omega))))
    exact below_below (i := 4) (by omega) (by omega)
  have htop : m.read32 (s.esp - 4) = s.eax := by
    have hd := below_disjoint (p := s.esp - 4) (n := env.window + 36) (k := 4) (by omega)
    rw [EqOn.read32 hm (Set.subset_compl_iff_disjoint_left.mpr hd), read32_write32_self]
  have hret' : m.read32 s.esp = s.top :=
    EqOn.read32 hmem (Set.subset_compl_iff_disjoint_left.mpr (below_disjoint (by omega)))
  have e4 : s.esp - 4 + 4 = s.esp := BitVec.sub_add_cancel _ _
  obtain ⟨fl', hzf, hrun⟩ := jumpTest_run env.jit.image.addr { s with
    eax := p, esp := s.esp - 4, flags := fl, mem := m, pc := x2 }
  dsimp only [State.top] at hrun hzf
  rw [htop, e4] at hrun
  refine until_run hD.driven hD.passes hs3 rfl hrun (until_jcc hD hs4 hinvalid (fun ht => ?_) fun hn => ?_)
  · have h0 : p = 0 := of_decide_eq_true (hzf.symm.trans ht)
    refine until_instr hD.driven hD.passes hret (not_call fun l => by simp) rfl ?_
    have h' := h fl' m hmem
    dsimp only at h'
    rw [if_pos h0] at h'
    dsimp only [State.top] at hret' h' ⊢
    rwa [hret']
  · have h0 : p ≠ 0 := of_decide_eq_false (hzf.symm.trans hn)
    refine until_run hD.driven hD.passes hs5 rfl (leaEsp_run _ _ _) ?_
    refine until_instr hD.driven hD.passes hf (not_call fun l => by simp) rfl ?_
    have h' := h fl' m hmem
    dsimp only at h'
    rwa [if_neg h0] at h'

/-- `JumpLookup`, called from the script -/
theorem until_scriptLookup (hD : env.Drives R P) (hpc : env.jit.image.addr .jumpLookup = some s.pc)
    (h : ∀ (fl : Flags) (m : Mem), Set.EqOn m s.mem (below s.esp (env.window + 32))ᶜ →
      Until R P Q { s with
        eax := getJITInstrPtr env.jit.instrTable s.eax, flags := fl, mem := m, esp := s.esp + 4,
        pc := s.top }) : Until R P Q s := by
  have hin : emitJumpLookup env.jit.compiler <:+: env.jit.runtime :=
    env.jit.infix_runtime (by simp [Jit.parts]) (List.infix_refl _)
  obtain ⟨a, e, hseg⟩ := env.jit.part hin
  unfold emitJumpLookup emitLookup at hseg
  simp only [List.append_assoc] at hseg
  obtain ⟨hl, hseg⟩ := seg_label.mp hseg
  obtain rfl : s.pc = a := Option.some.inj (hpc.symm.trans hl)
  have hbody : Seg env.jit.runtimeFetch env.jit.image.addr s.pc (asm lookupArgs ++
      emit (.callAbs (env.jit.compiler.address .getJITInstrPtr)) ++ asm lookupLeave ++ emit .ret) e := by
    simp only [List.append_assoc]
    exact hseg
  refine until_lookup hD .getJITInstrPtr rfl hbody ?_
  intro v y fl m hv _ hm
  rw [show v = getJITInstrPtr env.jit.instrTable s.eax from hv]
  exact h fl m hm

end Env

end AmxJit
