import AmxJit.Runtime.Exit

/-!
# How a run of the script ends

The ways from the script to `exec_exit`:

* `until_callReturn`   the entry function has returned;
* `until_halt`         from the first instruction of `HaltHelper`;

each down to the state in which `Exec` has returned (`finished`).
-/

set_option linter.constructorNameAsVariable false

namespace AmxJit
open X86 Trans Reg

/-- PRI, ALT, FRM and STK as the machine has them -/
def syncAmx (s : Machine) (a : Amx) : Amx :=
  { a with pri := s.eax, alt := s.ecx, frm := s.ebp - s.ebx, stk := s.esp - s.ebx }

namespace Env
variable {env : Env} {R : Machine → Machine → Prop} {P Q : Machine → Prop} {u s : Machine} {k : Mode}

/-- what keeps the frame -/
theorem InFrame.congr {t : Machine} (hu : env.Entry u) (hs : InFrame env u k s)
    (hm : Set.EqOn t.mem s.mem (upTo env.top (u.esp - k.depth)))
    (hesp : t.vars.rib.esp = s.vars.rib.esp) (hebp : t.vars.rib.ebp = s.vars.rib.ebp)
    (hamx : t.vars.rib.amx = s.vars.rib.amx) (hptr : t.vars.amxPtr = s.vars.amxPtr)
    (hcb : t.vars.amx.callback = s.vars.amx.callback)
    (hbase : dataBase t.vars = dataBase s.vars) (hebx : t.ebx = s.ebx) : InFrame env u k t where
  frame := hs.frame.congr hu hm
  esp := hesp.trans hs.esp
  ebp := hebp.trans hs.ebp
  amx := hamx.trans (hs.amx.trans hptr.symm)
  amxPtr := hptr.trans hs.amxPtr
  callback := hcb.trans hs.callback
  base := hbase.trans hs.base
  ebx := hebx.trans hs.ebx

theorem cmp_imm_run (adr : Label → Option Word) (s : Machine) (r : Reg) (v : Word) :
    runSeq adr ([.cmp r v] : Code) s = some { s with flags := s.flags.sub (s.get r) v } := rfl

/-! ## the entry function returns -/

theorem callReturnError_run (adr : Label → Option Word) (s : Machine)
    (hamx : s.vars.rib.amx = s.vars.amxPtr) :
    runSeq adr callReturnError s =
      some { s with esi := s.vars.amxPtr, edi := s.vars.amx.error } := by
  simp only [callReturnError, runSeq_cons, runSeq_nil, exec, State.load, State.store, State.get,
    State.set, Option.bind_some, Cells.get, Cells.ptr, Vars.get, Vars.ptr, RuntimeInfoBlock.get,
    Amx.get, hamx, if_pos]

theorem callReturnSync_run (adr : Label → Option Word) (s : Machine)
    (hesi : s.esi = s.vars.amxPtr) :
    ∃ f : Flags, runSeq adr callReturnSync s = some { s with
      edx := s.esp - s.ebx, flags := f,
      vars := { s.vars with amx := syncAmx s s.vars.amx } } := by
  refine ⟨(s.flags.sub s.ebp s.ebx).sub s.esp s.ebx, ?_⟩
  simp only [callReturnSync, runSeq_cons, runSeq_nil, exec, State.load, State.store, State.alu,
    State.get, State.set, Option.bind_some, Option.map_some, Cells.ptr, Cells.set, Vars.set,
    Vars.ptr, Amx.set, hesi, if_pos]
  rfl

/-- the AMX structure after the entry function has returned: a build with sleep enabled writes PRI,
ALT, FRM and STK only if the error is `AMX_ERR_SLEEP` -/
def returnAmx (c : CompilerImpl) (s : Machine) : Amx :=
  if c.enableSleep = true ∧ s.vars.amx.error ≠ AMX_ERR_SLEEP then s.vars.amx
  else syncAmx s s.vars.amx

theorem until_callReturn (hD : env.Drives R P) (hu : env.Entry u) (hs : InFrame env u k s)
    (hpc : env.jit.image.addr .callReturn = some s.pc)
    (h : ∀ (m : Mem) (fl : Flags) (y : Word),
      Set.EqOn m s.mem (below (u.esp - k.depth + 16) (env.window + 32))ᶜ →
      Until R P Q (finished u { s with
        edx := y, vars := { s.vars with amx := returnAmx env.jit.compiler s } } m fl)) :
    Until R P Q s := by
  obtain ⟨_, b, d, _, -, hret, hexit⟩ := env.jit.helper_parts
  unfold helperReturn at hret
  simp only [List.append_assoc] at hret
  obtain ⟨hl, hret⟩ := seg_label.mp hret
  obtain rfl : s.pc = b := Option.some.inj (hpc.symm.trans hl)
  obtain ⟨x1, hs1, hret⟩ := seg_append.mp hret
  obtain ⟨x2, hs2, hs3⟩ := seg_append.mp hret
  have hexitl : env.jit.image.addr .execExit = some d :=
    (seg_label.mp (by simpa only [helperExit, List.append_assoc] using hexit)).1
  refine until_run hD.driven hD.passes hs1 rfl (callReturnError_run _ s hs.amx) ?_
  -- the AMX registers are written
  have hsync (fl : Flags) (hr : returnAmx env.jit.compiler s = syncAmx s s.vars.amx) :
      Until R P Q { s with
        esi := s.vars.amxPtr, edi := s.vars.amx.error, flags := fl, pc := x2 } := by
    obtain ⟨f, hrun⟩ := callReturnSync_run env.jit.image.addr { s with
      esi := s.vars.amxPtr, edi := s.vars.amx.error, flags := fl, pc := x2 } rfl
    refine until_run hD.driven hD.passes hs3 rfl hrun ?_
    refine until_execExit hD hu (k := k) (hs.congr hu ?_ rfl rfl rfl rfl rfl rfl rfl) hexitl ?_
    · exact fun _ _ => rfl
    · intro m fl' hm
      rw [hr] at h
      exact h m fl' _ hm
  by_cases hsleep : env.jit.compiler.enableSleep = true
  · rw [if_pos hsleep] at hs2
    obtain ⟨x, hs2, hs2'⟩ := seg_append.mp hs2
    refine until_run hD.driven hD.passes hs2 rfl (cmp_imm_run _ _ .edi AMX_ERR_SLEEP) ?_
    refine until_jcc hD hs2' hexitl (fun ht => ?_) fun hn => ?_
    · have hne : s.vars.amx.error ≠ AMX_ERR_SLEEP := by
        have := (cmp_ne s.flags s.vars.amx.error AMX_ERR_SLEEP).symm.trans ht
        simpa using this
      have hr : returnAmx env.jit.compiler s = s.vars.amx := if_pos ⟨hsleep, hne⟩
      rw [hr] at h
      refine until_execExit hD hu (k := k) (hs.congr hu ?_ rfl rfl rfl rfl rfl rfl rfl) hexitl ?_
      · exact fun _ _ => rfl
      · intro m fl' hm
        exact h m fl' s.edx hm
    · have heq : s.vars.amx.error = AMX_ERR_SLEEP := by
        have := (cmp_ne s.flags s.vars.amx.error AMX_ERR_SLEEP).symm.trans hn
        simpa using this
      exact hsync _ (if_neg fun hc => hc.2 heq)
  · rw [if_neg hsleep] at hs2
    obtain rfl : x1 = x2 := hs2
    exact hsync _ (if_neg fun hc => hsleep hc.1)

/-! ## HaltHelper -/

/-- AMX memory is not on the native stack -/
theorem upTo_amxMem (hu : env.Entry u) (k : Mode) :
    upTo env.top (u.esp - k.depth) ⊆ env.amxMemᶜ :=
  (upTo_frame hu k).trans (Set.subset_compl_iff_disjoint_left.mpr env.stack_sep)

/-- work on AMX memory leaves the frame alone -/
theorem InFrame.amxWork {t : Machine} (hu : env.Entry u) (hs : InFrame env u k s)
    (hm : Set.EqOn t.mem s.mem env.amxMemᶜ)
    (hesp : t.vars.rib.esp = s.vars.rib.esp) (hebp : t.vars.rib.ebp = s.vars.rib.ebp)
    (hamx : t.vars.rib.amx = s.vars.rib.amx) (hptr : t.vars.amxPtr = s.vars.amxPtr)
    (hcb : t.vars.amx.callback = s.vars.amx.callback)
    (hbase : dataBase t.vars = dataBase s.vars) (hebx : t.ebx = s.ebx) : InFrame env u k t :=
  hs.congr hu (hm.mono (upTo_amxMem hu k)) hesp hebp hamx hptr hcb hbase hebx

end Env

/-- the AMX address of the instruction at the return address -/
def Jit.returnCip (jit : Jit) (s : Machine) : Word :=
  getANXAddressByJITInstrPtr jit.instrTable s.top

/-- the AMX structure behind the first part of `HaltHelper` -/
def haltSynced (s : Machine) : Amx :=
  { s.vars.amx with
    error := s.edi, pri := s.eax, alt := s.ecx, frm := s.ebp - s.ebx, stk := s.esp + 4 - s.ebx }

/-- `HaltHelper` puts the script to sleep -/
def Jit.HaltSleeps (jit : Jit) (s : Machine) : Prop :=
  jit.compiler.enableSleep = true ∧ s.edi = AMX_ERR_SLEEP

instance (jit : Jit) (s : Machine) : Decidable (jit.HaltSleeps s) := inferInstanceAs (Decidable (_ ∧ _))

/-- the AMX structure as `HaltHelper`, entered in the state `s`, leaves it -/
def Jit.haltAmx (jit : Jit) (s : Machine) : Amx :=
  if jit.HaltSleeps s then
    { haltSynced s with
      cip := jit.returnCip s, resetStk := s.vars.rib.resetStk, resetHea := s.vars.rib.resetHea }
  else haltSynced s

/-- what `HaltHelper` leaves in `eax` -/
def Jit.haltPri (jit : Jit) (s : Machine) : Word :=
  if jit.HaltSleeps s then jit.returnCip s else s.eax

namespace Env
variable {env : Env} {R : Machine → Machine → Prop} {P Q : Machine → Prop} {u s : Machine} {k : Mode}

theorem haltSync_run (adr : Label → Option Word) (s : Machine)
    (hamx : s.vars.rib.amx = s.vars.amxPtr) :
    ∃ f : Flags, runSeq adr haltSync s = some { s with
      esi := s.vars.amxPtr, ecx := s.top, edx := s.esp + 4 - s.ebx, esp := s.esp + 4, flags := f,
      vars := { s.vars with amx := haltSynced s } } := by
  refine ⟨(s.flags.sub s.ebp s.ebx).sub (s.esp + 4) s.ebx, ?_⟩
  simp only [haltSync, runSeq_cons, runSeq_nil, exec, State.load, State.store, State.alu, State.get,
    State.set, State.top, Option.bind_some, Option.map_some, Cells.get, Cells.ptr, Cells.set,
    Vars.get, Vars.set, Vars.ptr, RuntimeInfoBlock.get, Amx.set, hamx, if_pos]
  rfl

theorem haltSaveCip_run (adr : Label → Option Word) (s : Machine) (hesi : s.esi = s.vars.amxPtr) :
    runSeq adr haltSaveCip s = some { s with
      edx := s.vars.rib.resetHea,
      vars := { s.vars with amx := { s.vars.amx with
        cip := s.eax, resetStk := s.vars.rib.resetStk, resetHea := s.vars.rib.resetHea } } } := by
  simp only [haltSaveCip, runSeq_cons, runSeq_nil, exec, State.load, State.store, State.get,
    State.set, Option.bind_some, Cells.get, Cells.ptr, Cells.set, Vars.get, Vars.set, Vars.ptr,
    RuntimeInfoBlock.get, Amx.set, hesi, if_pos]

/-- **`HaltHelper` ends the run.** -/
theorem until_halt (hD : env.Drives R P) (hu : env.Entry u) (hs : InFrame env u k s)
    (hpc : env.jit.image.addr .haltHelper = some s.pc) (hroom : env.AmxRoom (s.esp + 4))
    (h : ∀ (m : Mem) (fl : Flags) (y : Word),
      Set.EqOn m s.mem
        (below (s.esp + 4) env.need ∪ below (u.esp - k.depth + 16) (env.window + 32))ᶜ →
      Until R P Q (finished u { s with
        eax := env.jit.haltPri s, edx := y,
        vars := { s.vars with amx := env.jit.haltAmx s } } m fl)) :
    Until R P Q s := by
  have hin : emitHaltHelper env.jit.compiler <:+: env.jit.runtime :=
    env.jit.infix_runtime (by simp [Jit.parts]) (List.infix_refl _)
  obtain ⟨a, e, hseg⟩ := env.jit.part hin
  unfold emitHaltHelper at hseg
  simp only [List.append_assoc] at hseg
  obtain ⟨hl, hseg⟩ := seg_label.mp hseg
  obtain rfl : s.pc = a := Option.some.inj (hpc.symm.trans hl)
  obtain ⟨x1, hs1, hseg⟩ := seg_append.mp hseg
  obtain ⟨x2, hs2, hseg⟩ := seg_append.mp hseg
  obtain ⟨x3, hs3, hseg⟩ := seg_append.mp hseg
  obtain ⟨hexit, hseg⟩ := seg_label.mp hseg
  obtain ⟨x4, hs4, hseg⟩ := seg_append.mp hseg
  obtain ⟨x5, hs5, hs6⟩ := seg_append.mp hseg
  obtain ⟨_, _, d, _, -, -, hd⟩ := env.jit.helper_parts
  have hexitl : env.jit.image.addr .execExit = some d :=
    (seg_label.mp (by simpa only [helperExit, List.append_assoc] using hd)).1
  have hw := env.window_le
  have hneed : env.need < 2^32 := by
    unfold need
    omega
  -- from `exit_label`
  have hleave (x z y : Word) (fl : Flags) (m : Mem) (a : Amx)
      (ha : a = env.jit.haltAmx s) (hx : x = env.jit.haltPri s)
      (hm : Set.EqOn m s.mem (below (s.esp + 4) env.need)ᶜ) :
      Until R P Q { s with
        eax := x, ecx := z, edx := y, esi := s.vars.amxPtr, esp := s.esp + 4, flags := fl, mem := m,
        vars := { s.vars with amx := a }, pc := x3 } := by
    subst ha hx
    have hrun : runSeq env.jit.image.addr haltReset { s with
        eax := env.jit.haltPri s, ecx := z, edx := y, esi := s.vars.amxPtr, esp := s.esp + 4,
        flags := fl, mem := m, vars := { s.vars with amx := env.jit.haltAmx s }, pc := x3 } =
        some { s with
          eax := env.jit.haltPri s, ecx := z, edx := y, esi := s.vars.amxPtr,
          esp := s.vars.rib.resetEsp, ebp := s.vars.rib.resetEbp, flags := fl, mem := m,
          vars := { s.vars with amx := env.jit.haltAmx s }, pc := x3 } := by
      simp only [haltReset, runSeq_cons, runSeq_nil, exec, State.load, State.store, State.set,
        Option.bind_some, Cells.get, Vars.get, RuntimeInfoBlock.get]
    refine until_run hD.driven hD.passes hs4 rfl hrun (until_jmp hD hs5 hexitl ?_)
    have hkeep : (env.jit.haltAmx s).callback = s.vars.amx.callback ∧
        (env.jit.haltAmx s).data = s.vars.amx.data ∧ (env.jit.haltAmx s).base = s.vars.amx.base := by
      unfold Jit.haltAmx
      split <;> exact ⟨rfl, rfl, rfl⟩
    refine until_execExit hD hu (k := k) (hs.amxWork hu ?_ rfl rfl rfl rfl hkeep.1 ?_ rfl) hexitl ?_
    · exact hm.mono (Set.compl_subset_compl.mpr hroom)
    · show (if (env.jit.haltAmx s).data = 0 then (env.jit.haltAmx s).base + _ else _) = _
      rw [hkeep.2.1, hkeep.2.2]
      rfl
    · intro m' fl' hm'
      refine h m' fl' y ((hm'.mono ?_).trans (hm.mono ?_))
      · exact Set.compl_subset_compl.mpr Set.subset_union_right
      · exact Set.compl_subset_compl.mpr Set.subset_union_left
  refine until_debugPrint hD hs1 fun fl m _ hm => ?_
  have hm1 : Set.EqOn m s.mem (below (s.esp + 4) env.need)ᶜ := by
    refine hm.mono (Set.compl_subset_compl.mpr (below_add (v := 4) ?_))
    show env.window + 32 + 4 ≤ env.window + 256
    omega
  have htop : m.read32 s.esp = s.top :=
    EqOn.read32 hm (Set.subset_compl_iff_disjoint_left.mpr (below_disjoint (by omega)))
  obtain ⟨f, hrun⟩ := haltSync_run env.jit.image.addr { s with flags := fl, mem := m, pc := x1 } hs.amx
  unfold State.top haltSynced at hrun
  dsimp only at hrun
  rw [htop] at hrun
  refine until_run hD.driven hD.passes hs2 rfl hrun ?_
  by_cases hsleep : env.jit.compiler.enableSleep = true
  · rw [if_pos hsleep] at hs3 hs6
    obtain ⟨x, hs3, hs3'⟩ := seg_append.mp hs3
    obtain ⟨hsl, hs6⟩ := seg_label.mp hs6
    obtain ⟨y1, hc1, hs6⟩ := seg_append.mp hs6
    obtain ⟨y2, hc2, hs6⟩ := seg_append.mp hs6
    obtain ⟨y3, hc3, hc4⟩ := seg_append.mp hs6
    refine until_run hD.driven hD.passes hs3 rfl (cmp_imm_run _ _ .edi AMX_ERR_SLEEP) ?_
    refine until_jcc hD hs3' hsl (fun ht => ?_) fun hn => ?_
    · have heq : s.edi = AMX_ERR_SLEEP := of_decide_eq_true ((cmp_e f s.edi AMX_ERR_SLEEP).symm.trans ht)
      have hsleeps : env.jit.HaltSleeps s := ⟨hsleep, heq⟩
      have hmov : runSeq env.jit.image.addr ([.mov eax ecx] : Code) { s with
          ecx := s.top, edx := s.esp + 4 - s.ebx, esi := s.vars.amxPtr, esp := s.esp + 4,
          flags := f.sub s.edi AMX_ERR_SLEEP, mem := m,
          vars := { s.vars with amx := haltSynced s }, pc := x5 } = some { s with
            eax := s.top, ecx := s.top, edx := s.esp + 4 - s.ebx, esi := s.vars.amxPtr,
            esp := s.esp + 4, flags := f.sub s.edi AMX_ERR_SLEEP, mem := m,
            vars := { s.vars with amx := haltSynced s }, pc := x5 } := rfl
      refine until_run hD.driven hD.passes hc1 rfl hmov ?_
      refine until_reverseJumpLookup hD hc2 fun fl' m' _ hm' => ?_
      have hsave := haltSaveCip_run env.jit.image.addr { s with
        eax := env.jit.returnCip s, ecx := s.top, edx := s.esp + 4 - s.ebx, esi := s.vars.amxPtr,
        esp := s.esp + 4, flags := fl', mem := m', vars := { s.vars with amx := haltSynced s },
        pc := y2 } rfl
      refine until_run hD.driven hD.passes hc3 rfl hsave (until_jmp hD hc4 hexit ?_)
      refine hleave _ _ _ fl' m' _ (if_pos hsleeps).symm (if_pos hsleeps).symm ?_
      refine (hm'.mono (Set.compl_subset_compl.mpr (below_mono ?_))).trans hm1
      unfold need
      omega
    · have hne : s.edi ≠ AMX_ERR_SLEEP := of_decide_eq_false ((cmp_e f s.edi AMX_ERR_SLEEP).symm.trans hn)
      have hno : ¬ env.jit.HaltSleeps s := fun hc => hne hc.2
      exact hleave s.eax _ _ _ m _ (if_neg hno).symm (if_neg hno).symm hm1
  · rw [if_neg hsleep] at hs3
    obtain rfl : x2 = x3 := hs3
    have hno : ¬ env.jit.HaltSleeps s := fun hc => hsleep hc.1
    exact hleave s.eax _ _ f m _ (if_neg hno).symm (if_neg hno).symm hm1

end Env

end AmxJit
