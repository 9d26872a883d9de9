import AmxJit.Runtime.Sysreq

/-!
# The way into `Exec`

* `check a`         the checks of `Exec`: the error code of an early return, or `none`;
* `Rejected`        `Exec` has returned early;
* `Started`, `Continued`   the script has been entered, from its start or to continue after a sleep;
* `AtHelper`        the call of the helper that enters the script;
* `until_enter`     from the entry of `Exec` to an early return or to the helper;
* `until_exec`      from the entry of `Exec` to an early return or into the script.
-/

set_option linter.constructorNameAsVariable false

namespace AmxJit
open X86 Trans Reg

/-- the checks of `Exec`, up to the one for the public function -/
def check (a : Amx) : Option Word :=
  if a.stk.toInt ≤ a.hea.toInt then some AMX_ERR_STACKERR
  else if a.stp.toInt < a.stk.toInt then some AMX_ERR_STACKLOW
  else if a.hea.toInt < a.hlw.toInt then some AMX_ERR_HEAPLOW
  else if a.flags &&& AMX_FLAG_NTVREG = 0 then some AMX_ERR_NOTFOUND
  else none

/-- the early returns -/
def rejects : List (Label × Word) :=
  [(.stackHeapOverflow, AMX_ERR_STACKERR), (.heapUnderflow, AMX_ERR_HEAPLOW),
    (.stackUnderflow, AMX_ERR_STACKLOW), (.nativeNotFound, AMX_ERR_NOTFOUND),
    (.publicNotFound, AMX_ERR_INDEX)]

namespace Jit

theorem reject_part (jit : Jit) : ∀ r ∈ rejects, ∃ a e, jit.image.addr r.1 = some a ∧
    Seg jit.runtimeFetch jit.image.addr a (asm [.mov eax r.2] ++ emit (.jmp .return')) e := by
  obtain ⟨_, _, _, _, _, _, -, -, -, h, -⟩ := jit.exec_parts
  unfold execRejects execReject at h
  simp only [List.append_assoc] at h
  have hseg {l : Label} {v a e : Word} {b : Buffer}
      (h : Seg jit.runtimeFetch jit.image.addr a
        (label l ++ (asm [.mov eax v] ++ (emit (.jmp .return') ++ b))) e) :
      (∃ a e, jit.image.addr l = some a ∧
        Seg jit.runtimeFetch jit.image.addr a (asm [.mov eax v] ++ emit (.jmp .return')) e) ∧
        ∃ x, Seg jit.runtimeFetch jit.image.addr x b e := by
    obtain ⟨hl, h⟩ := seg_label.mp h
    rw [← List.append_assoc] at h
    obtain ⟨x, h1, h2⟩ := seg_append.mp h
    exact ⟨⟨_, _, hl, h1⟩, _, h2⟩
  obtain ⟨h1, _, h⟩ := hseg h
  obtain ⟨h2, _, h⟩ := hseg h
  obtain ⟨h3, _, h⟩ := hseg h
  obtain ⟨h4, _, h⟩ := hseg h
  obtain ⟨hl, h⟩ := seg_label.mp h
  intro r hr
  simp only [rejects, List.mem_cons, List.not_mem_nil, or_false] at hr
  rcases hr with rfl | rfl | rfl | rfl | rfl
  · exact h1
  · exact h2
  · exact h3
  · exact h4
  · exact ⟨_, _, hl, h⟩

end Jit

namespace Env
variable (env : Env)

/-- `Exec`, entered in the state `u`, has returned early. -/
structure Rejected (u : Machine) (error : Word) (v : Machine) : Prop where
  eax : v.eax = error
  ebx : v.ebx = u.ebx
  ebp : v.ebp = u.ebp
  esi : v.esi = u.esi
  edi : v.edi = u.edi
  esp : v.esp = u.esp + 4
  pc : v.pc = u.top
  vars : v.vars = u.vars ∨ v.vars = { u.vars with amx := { u.vars.amx with error := AMX_ERR_NONE } }
  mem : Set.EqOn v.mem u.mem (below u.esp env.need)ᶜ

/-- a state in the body of `Exec` -/
def opened (u : Machine) (x y z : Word) (fl : Flags) (m : Mem) (v : Vars) (pc : Word) : Machine :=
  { u with
    eax := x, ecx := y, edx := z, ebx := dataBase u.vars, esp := u.esp - 32, ebp := u.esp - 4,
    esi := u.vars.amxPtr, flags := fl, mem := m, vars := v, pc := pc }

variable {env} {R : Machine → Machine → Prop} {P Q : Machine → Prop} {u s : Machine} {k : Mode}
  {m : Mem}

theorem execEnter_run (adr : Label → Option Word) (s : Machine)
    (hamx : s.vars.rib.amx = s.vars.amxPtr) :
    ∃ fl : Flags, fl.zf = decide (s.vars.amx.data = 0) ∧ runSeq adr execEnter s = some { s with
      ebp := s.esp - 4, esp := s.esp - 32, esi := s.vars.amxPtr, ebx := s.vars.amx.data, flags := fl,
      mem := ((s.mem.write32 (s.esp - 4) s.ebp).write32 (s.esp - 28) s.esi).write32 (s.esp - 32)
        s.ebx } := by
  refine ⟨(s.flags.sub (s.esp - 4) 20).logic (s.vars.amx.data &&& s.vars.amx.data),
    test_e _ _, ?_⟩
  have e24 : s.esp - 4 - 20 = s.esp - 24 := sub_sub_lit _ (by decide)
  have e28 : s.esp - 24 - 4 = s.esp - 28 := sub_sub_lit _ (by decide)
  have e32 : s.esp - 28 - 4 = s.esp - 32 := sub_sub_lit _ (by decide)
  simp only [execEnter, runSeq_cons, runSeq_nil, exec, State.load, State.store, State.alu, State.get,
    State.set, State.push, Option.bind_some, Option.map_some, Cells.get, Cells.ptr, Vars.get,
    Vars.ptr, RuntimeInfoBlock.get, Amx.get, hamx, if_pos, e24, e28, e32]

theorem execNullData_run (adr : Label → Option Word) (s : Machine) (hesi : s.esi = s.vars.amxPtr) :
    ∃ fl : Flags, runSeq adr execNullData s = some { s with
      eax := s.vars.hdr.dat, ebx := s.vars.amx.base + s.vars.hdr.dat, flags := fl } := by
  refine ⟨s.flags.add s.vars.amx.base s.vars.hdr.dat, ?_⟩
  simp only [execNullData, runSeq_cons, runSeq_nil, exec, State.load, State.store, State.alu,
    State.get, State.set, Option.bind_some, Option.map_some, Cells.get, Cells.ptr, Vars.get,
    Vars.ptr, AmxHeader.get, Amx.get, hesi, if_pos]

theorem execCheck_run (adr : Label → Option Word) (u : Machine) (f g : AmxField) (x y z : Word)
    (fl : Flags) (m : Mem) (pc : Word) :
    runSeq adr (execCheck f g) (opened u x y z fl m u.vars pc) =
      some (opened u x (u.vars.amx.get f) (u.vars.amx.get g)
        (fl.sub (u.vars.amx.get f) (u.vars.amx.get g)) m u.vars pc) := by
  simp only [execCheck, opened, runSeq_cons, runSeq_nil, exec, State.load, State.store, State.get,
    State.set, Option.bind_some, Option.map_some, Cells.get, Cells.ptr, Vars.get, Vars.ptr, if_pos]

/-- the memory after the registers of the caller have been saved -/
def enterMem (u : Machine) : Mem :=
  ((u.mem.write32 (u.esp - 4) u.ebp).write32 (u.esp - 28) u.esi).write32 (u.esp - 32) u.ebx

theorem enterMem_eqOn (u : Machine) : Set.EqOn (enterMem u) u.mem (below u.esp 32)ᶜ := by
  have hsub (v : Word) (h : 4 ≤ v.toNat ∧ v.toNat ≤ 32) :
      Disjoint (bytes (u.esp - v) 4) (below u.esp 32)ᶜ := by
    have hv : BitVec.ofNat 32 v.toNat = v := by rw [BitVec.ofNat_toNat, BitVec.setWidth_eq]
    rw [← hv]
    exact Set.disjoint_compl_right_iff_subset.mpr (bytes_below h.1 h.2)
  refine (eqOn_write u.ebx (hsub 32 (by decide))).trans ?_
  refine (eqOn_write u.esi (hsub 28 (by decide))).trans ?_
  exact eqOn_write u.ebp (hsub 4 (by decide))

/-- words at distances that do not overlap -/
theorem sep_sub (p : Word) {v w : Word} (h : Sep (-v) (-w)) : Sep (p - v) (p - w) := by
  rw [sub_eq_add_neg, sub_eq_add_neg]
  exact (sep_add p _ _).mpr h

theorem enterMem_saved (u : Machine) : Saved u (enterMem u) := by
  have hret : (enterMem u).read32 u.esp = u.top :=
    EqOn.read32 (enterMem_eqOn u) (Set.subset_compl_iff_disjoint_left.mpr (below_disjoint (by omega)))
  refine ⟨hret, ?_, ?_, read32_write32_self _ _ _⟩
  · unfold enterMem
    rw [read32_write32_sep _ _ _ _ (sep_sub _ (by decide)),
      read32_write32_sep _ _ _ _ (sep_sub _ (by decide)), read32_write32_self]
  · unfold enterMem
    rw [read32_write32_sep _ _ _ _ (sep_sub _ (by decide)), read32_write32_self]

/-- the local variables are not initialised -/
theorem enterMem_local (u : Machine) {v : Word} (h4 : Sep (-4) (-v)) (h28 : Sep (-28) (-v))
    (h32 : Sep (-32) (-v)) : (enterMem u).read32 (u.esp - v) = u.mem.read32 (u.esp - v) := by
  unfold enterMem
  rw [read32_write32_sep _ _ _ _ (sep_sub _ h32), read32_write32_sep _ _ _ _ (sep_sub _ h28),
    read32_write32_sep _ _ _ _ (sep_sub _ h4)]

/-- an early return -/
theorem until_reject (hD : env.Drives R P) {l : Label} {error x y z : Word} {fl : Flags} {m : Mem}
    {v : Vars} {pc : Word} (hr : (l, error) ∈ rejects) (hl : env.jit.image.addr l = some pc)
    (hs : Saved u m) (hm : Set.EqOn m u.mem (below u.esp env.need)ᶜ)
    (hv : v = u.vars ∨ v = { u.vars with amx := { u.vars.amx with error := AMX_ERR_NONE } })
    (h : ∀ t, Rejected env u error t → Until R P Q t) :
    Until R P Q (opened u x y z fl m v pc) := by
  obtain ⟨a, e, ha, hseg⟩ := env.jit.reject_part _ hr
  obtain rfl : pc = a := Option.some.inj (hl.symm.trans ha)
  obtain ⟨b, hs1, hs2⟩ := seg_append.mp hseg
  obtain ⟨_, _, d, _, _, _, -, -, hret, -, -⟩ := env.jit.exec_parts
  have hretl : env.jit.image.addr .return' = some d :=
    (seg_label.mp (by simpa only [execReturn, List.append_assoc] using hret)).1
  refine until_run hD.driven hD.passes hs1 rfl (t := opened u error y z fl m v pc) rfl ?_
  refine until_jmp hD hs2 hretl (until_leave hD hs hretl rfl rfl (h _ ?_))
  exact ⟨rfl, rfl, rfl, rfl, rfl, rfl, rfl, hv, hm⟩

/-! ## the checks -/

/-- the structures behind the checks -/
def clearedVars (v : Vars) : Vars := { v with amx := { v.amx with error := AMX_ERR_NONE } }

/-- `Exec` is to continue after a sleep. -/
def Continues (env : Env) (u : Machine) : Prop :=
  env.jit.compiler.enableSleep = true ∧ u.mem.read32 (u.esp + 4) = AMX_EXEC_CONT

/-- one check: a comparison of two fields and a jump to an early return -/
theorem until_check (hD : env.Drives R P) {f g : AmxField} {cond : Cond} {l : Label}
    {error x y z e e' : Word} {fl : Flags} {m : Mem} {pc : Word}
    (hseg : Seg env.jit.runtimeFetch env.jit.image.addr pc (asm (execCheck f g)) e)
    (hjcc : Seg env.jit.runtimeFetch env.jit.image.addr e (emit (.jcc cond l)) e')
    (hr : (l, error) ∈ rejects) (hs : Saved u m) (hm : Set.EqOn m u.mem (below u.esp env.need)ᶜ)
    (h : ∀ t, cond.holds (fl.sub (u.vars.amx.get f) (u.vars.amx.get g)) = true →
      Rejected env u error t → Until R P Q t)
    (hn : cond.holds (fl.sub (u.vars.amx.get f) (u.vars.amx.get g)) = false → ∀ (y z : Word)
      (fl : Flags), Until R P Q (opened u x y z fl m u.vars e')) :
    Until R P Q (opened u x y z fl m u.vars pc) := by
  obtain ⟨a, _, ha, -⟩ := env.jit.reject_part _ hr
  refine until_run hD.driven hD.passes hseg rfl (execCheck_run _ u f g x y z fl m pc) ?_
  refine until_jcc hD hjcc ha (fun ht => ?_) fun hc => hn hc _ _ _
  exact until_reject hD hr ha hs hm (.inl rfl) fun t => h t ht

/-- the part of `Exec` up to the checks -/
def execChecks : Buffer :=
  label .exec ++ asm execEnter ++ emit (.jcc .ne .nullData) ++ asm execNullData ++
  label .nullData ++
  asm (execCheck .hea .stk) ++ emit (.jcc .ge .stackHeapOverflow) ++
  asm (execCheck .stk .stp) ++ emit (.jcc .g .stackUnderflow) ++
  asm (execCheck .hea .hlw) ++ emit (.jcc .l .heapUnderflow) ++
  asm execCheckNatives ++ emit (.jcc .e .nativeNotFound) ++
  asm execResetError

theorem until_checks (hD : env.Drives R P) (hamx : u.vars.rib.amx = u.vars.amxPtr) {e : Word}
    (hseg : Seg env.jit.runtimeFetch env.jit.image.addr u.pc execChecks e)
    (hreject : ∀ error t, check u.vars.amx = some error → Rejected env u error t → Until R P Q t)
    (h : check u.vars.amx = none → ∀ (x y z : Word) (fl : Flags),
      Until R P Q (opened u x y z fl (enterMem u) (clearedVars u.vars) e)) : Until R P Q u := by
  unfold execChecks at hseg
  simp only [List.append_assoc] at hseg
  obtain ⟨-, hseg⟩ := seg_label.mp hseg
  obtain ⟨x1, hs1, hseg⟩ := seg_append.mp hseg
  obtain ⟨x2, hs2, hseg⟩ := seg_append.mp hseg
  obtain ⟨x3, hs3, hseg⟩ := seg_append.mp hseg
  obtain ⟨hnull, hseg⟩ := seg_label.mp hseg
  obtain ⟨x4, hs4, hseg⟩ := seg_append.mp hseg
  obtain ⟨x5, hs5, hseg⟩ := seg_append.mp hseg
  obtain ⟨x6, hs6, hseg⟩ := seg_append.mp hseg
  obtain ⟨x7, hs7, hseg⟩ := seg_append.mp hseg
  obtain ⟨x8, hs8, hseg⟩ := seg_append.mp hseg
  obtain ⟨x9, hs9, hseg⟩ := seg_append.mp hseg
  obtain ⟨x10, hs10, hseg⟩ := seg_append.mp hseg
  obtain ⟨x11, hs11, hs12⟩ := seg_append.mp hseg
  have hsaved := enterMem_saved u
  have hmem : Set.EqOn (enterMem u) u.mem (below u.esp env.need)ᶜ :=
    (enterMem_eqOn u).mono (Set.compl_subset_compl.mpr (below_mono (by
      unfold need
      omega)))
  have hcheck {b : Bool} {p : Prop} [Decidable p] (hb : b = decide p) :
      (b = true → p) ∧ (b = false → ¬ p) := by
    rw [hb]
    exact ⟨of_decide_eq_true, of_decide_eq_false⟩
  -- the natives are registered
  have hnatives (h1 : ¬ u.vars.amx.stk.toInt ≤ u.vars.amx.hea.toInt)
      (h2 : ¬ u.vars.amx.stp.toInt < u.vars.amx.stk.toInt)
      (h3 : ¬ u.vars.amx.hea.toInt < u.vars.amx.hlw.toInt) (x y z : Word) (fl : Flags) :
      Until R P Q (opened u x y z fl (enterMem u) u.vars x9) := by
    obtain ⟨a, _, ha, -⟩ := env.jit.reject_part (.nativeNotFound, AMX_ERR_NOTFOUND) (by simp [rejects])
    have hrun : runSeq env.jit.image.addr execCheckNatives (opened u x y z fl (enterMem u) u.vars x9) =
        some (opened u x u.vars.amx.flags z (fl.logic (u.vars.amx.flags &&& AMX_FLAG_NTVREG))
          (enterMem u) u.vars x9) := by
      simp only [execCheckNatives, opened, runSeq_cons, runSeq_nil, exec, State.load, State.store,
        State.get, State.set, Option.bind_some, Option.map_some, Cells.get, Cells.ptr, Vars.get,
        Vars.ptr, Amx.get, if_pos]
    refine until_run hD.driven hD.passes hs10 rfl hrun (until_jcc hD hs11 ha (fun ht => ?_) fun hn => ?_)
    · have hbeq : (u.vars.amx.flags &&& AMX_FLAG_NTVREG == 0) = true := ht
      have hz : u.vars.amx.flags &&& AMX_FLAG_NTVREG = 0 := beq_iff_eq.mp hbeq
      refine until_reject hD (show (Label.nativeNotFound, AMX_ERR_NOTFOUND) ∈ rejects by simp [rejects])
        ha hsaved hmem (.inl rfl) fun t => hreject _ t ?_
      unfold check
      rw [if_neg h1, if_neg h2, if_neg h3, if_pos hz]
    · have hbeq : (u.vars.amx.flags &&& AMX_FLAG_NTVREG == 0) = false := hn
      have hz : u.vars.amx.flags &&& AMX_FLAG_NTVREG ≠ 0 := beq_eq_false_iff_ne.mp hbeq
      have hreset : runSeq env.jit.image.addr execResetError (opened u x u.vars.amx.flags z
          (fl.logic (u.vars.amx.flags &&& AMX_FLAG_NTVREG)) (enterMem u) u.vars x11) =
          some (opened u x u.vars.amx.flags z
            (fl.logic (u.vars.amx.flags &&& AMX_FLAG_NTVREG)) (enterMem u) (clearedVars u.vars) x11) := by
        simp only [execResetError, opened, clearedVars, runSeq_cons, runSeq_nil, exec, State.load,
          State.store, State.get, Option.bind_some, Cells.ptr, Cells.set, Vars.set, Vars.ptr, Amx.set,
          if_pos]
      refine until_run hD.driven hD.passes hs12 rfl hreset (h ?_ _ _ _ _)
      unfold check
      rw [if_neg h1, if_neg h2, if_neg h3, if_neg hz]
  -- the three comparisons
  have hchecks (x y z : Word) (fl : Flags) :
      Until R P Q (opened u x y z fl (enterMem u) u.vars x3) := by
    refine until_check hD hs4 hs5
      (show (Label.stackHeapOverflow, AMX_ERR_STACKERR) ∈ rejects by simp [rejects]) hsaved hmem
      (fun t ht => hreject _ t ?_) fun hn y z fl => ?_
    · have h1 : u.vars.amx.stk.toInt ≤ u.vars.amx.hea.toInt := (hcheck (cmp_ge _ _ _)).1 ht
      exact if_pos h1
    have h1 : ¬ u.vars.amx.stk.toInt ≤ u.vars.amx.hea.toInt := (hcheck (cmp_ge _ _ _)).2 hn
    refine until_check hD hs6 hs7
      (show (Label.stackUnderflow, AMX_ERR_STACKLOW) ∈ rejects by simp [rejects]) hsaved hmem
      (fun t ht => hreject _ t ?_) fun hn y z fl => ?_
    · have h2 : u.vars.amx.stp.toInt < u.vars.amx.stk.toInt := (hcheck (cmp_g _ _ _)).1 ht
      unfold check
      rw [if_neg h1, if_pos h2]
    have h2 : ¬ u.vars.amx.stp.toInt < u.vars.amx.stk.toInt := (hcheck (cmp_g _ _ _)).2 hn
    refine until_check hD hs8 hs9
      (show (Label.heapUnderflow, AMX_ERR_HEAPLOW) ∈ rejects by simp [rejects]) hsaved hmem
      (fun t ht => hreject _ t ?_) fun hn y z fl => ?_
    · have h3 : u.vars.amx.hea.toInt < u.vars.amx.hlw.toInt := (hcheck (cmp_l _ _ _)).1 ht
      unfold check
      rw [if_neg h1, if_neg h2, if_pos h3]
    exact hnatives h1 h2 ((hcheck (cmp_l _ _ _)).2 hn) _ _ _ _
  -- the data section
  obtain ⟨fl, hfl, hrun⟩ := execEnter_run env.jit.image.addr u hamx
  refine until_run hD.driven hD.passes hs1 rfl hrun (until_jcc hD hs2 hnull (fun ht => ?_) fun hn => ?_)
  · have hne : u.vars.amx.data ≠ 0 := by
      have : (!fl.zf) = true := ht
      rw [hfl] at this
      simpa using this
    have hbase : dataBase u.vars = u.vars.amx.data := if_neg hne
    have := hchecks u.eax u.ecx u.edx fl
    unfold opened at this
    rwa [hbase] at this
  · have hz : u.vars.amx.data = 0 := by
      have : (!fl.zf) = false := hn
      rw [hfl] at this
      simpa using this
    have hbase : dataBase u.vars = u.vars.amx.base + u.vars.hdr.dat := if_pos hz
    obtain ⟨fl', hrun'⟩ := execNullData_run env.jit.image.addr { u with
      ebp := u.esp - 4, esp := u.esp - 32, esi := u.vars.amxPtr, ebx := u.vars.amx.data, flags := fl,
      mem := enterMem u, pc := x2 } rfl
    refine until_run hD.driven hD.passes hs3 rfl hrun' ?_
    have := hchecks u.vars.hdr.dat u.ecx u.edx fl'
    unfold opened at this
    rwa [hbase] at this

/-! ## the helpers -/

theorem execHelperSave_run (adr : Label → Option Word) (s : Machine) :
    runSeq adr (execAddress ++ execHelperSave) s = some { s with
      eax := s.mem.read32 (s.esp + 4), esp := s.esp - 24,
      mem := pushes s.mem s.esp [s.esi, s.edi, s.vars.rib.ebp, s.vars.rib.esp, s.vars.rib.amxEbp,
        s.vars.rib.amxEsp] } := by
  have h8 : s.esp - 4 - 4 = s.esp - 8 := sub_sub_lit _ (by decide)
  have h12 : s.esp - 8 - 4 = s.esp - 12 := sub_sub_lit _ (by decide)
  have h16 : s.esp - 12 - 4 = s.esp - 16 := sub_sub_lit _ (by decide)
  have h20 : s.esp - 16 - 4 = s.esp - 20 := sub_sub_lit _ (by decide)
  have h24 : s.esp - 20 - 4 = s.esp - 24 := sub_sub_lit _ (by decide)
  simp only [execAddress, execHelperSave, List.cons_append, List.nil_append, runSeq_cons, runSeq_nil,
    exec, State.load, State.store, State.get, State.set, State.push, State.ea, ptr, Option.bind_some,
    Option.map_some, Cells.get, Vars.get, RuntimeInfoBlock.get, h8, h12, h16, h20, h24, pushes]

/-- the structures after the parameter size has been pushed -/
def paramsVars (v : Vars) : Vars :=
  { v with
    rib := { v.rib with
      resetStk := v.amx.stk + v.amx.paramcount * 4, resetHea := v.amx.hea }
    amx := { v.amx with paramcount := 0 } }

theorem execHelperParams_run (adr : Label → Option Word) (s : Machine)
    (hamx : s.vars.rib.amx = s.vars.amxPtr) :
    ∃ fl : Flags, runSeq adr execHelperParams s = some { s with
      ecx := s.vars.amxPtr, edx := s.vars.amx.stk - 4, esi := s.vars.amx.paramcount * 4,
      edi := s.vars.amx.stk + s.vars.amx.paramcount * 4, flags := fl,
      mem := s.mem.write32 (s.vars.amx.stk - 4 + s.ebx) (s.vars.amx.paramcount * 4),
      vars := paramsVars s.vars } := by
  have hq : s.ebx + (s.vars.amx.stk - 4) = s.vars.amx.stk - 4 + s.ebx := BitVec.add_comm _ _
  have hz (x : Word) : x + 0 = x := BitVec.add_zero x
  refine ⟨s.flags.sub s.vars.amx.stk 4, ?_⟩
  simp only [execHelperParams, runSeq_cons, runSeq_nil, exec, State.load, State.store, State.alu,
    State.doImul, State.get, State.set, State.ea, ptrx, Option.bind_some, Option.map_some, Cells.get,
    Cells.ptr, Cells.set, Vars.get, Vars.set, Vars.ptr, RuntimeInfoBlock.get, RuntimeInfoBlock.set,
    Amx.get, Amx.set, hamx, if_pos, BitVec.shiftLeft_zero, hz, hq, paramsVars]
  rfl

/-- the structures after the switch to the AMX stack at `esp` -/
def switchedVars (s : Machine) (esp : Word) : Vars :=
  { s.vars with
    rib := { s.vars.rib with
      ebp := s.ebp, esp := s.esp, amxEbp := s.vars.amx.frm + s.ebx, amxEsp := esp } }

theorem execHelperSwitch_run (adr : Label → Option Word) (s : Machine)
    (hecx : s.ecx = s.vars.amxPtr) :
    ∃ fl : Flags, runSeq adr execHelperSwitch s = some { s with
      edx := s.vars.amx.frm + s.ebx, esp := s.edx + s.ebx, ebp := s.vars.amx.frm + s.ebx, flags := fl,
      vars := switchedVars s (s.edx + s.ebx) } := by
  refine ⟨(s.flags.add s.edx s.ebx).add s.vars.amx.frm s.ebx, ?_⟩
  simp only [execHelperSwitch, runSeq_cons, runSeq_nil, exec, State.load, State.store, State.alu,
    State.get, State.set, Option.bind_some, Option.map_some, Cells.get, Cells.ptr, Cells.set,
    Vars.get, Vars.set, Vars.ptr, RuntimeInfoBlock.set, Amx.get, hecx, if_pos, switchedVars]

theorem execContSwitch_run (adr : Label → Option Word) (s : Machine)
    (hamx : s.vars.rib.amx = s.vars.amxPtr) :
    ∃ fl : Flags, runSeq adr execContSwitch s = some { s with
      ecx := s.vars.amxPtr, edx := s.vars.amx.stk + s.ebx, esp := s.vars.amx.stk + s.ebx,
      ebp := s.vars.amx.frm + s.ebx, flags := fl,
      vars := switchedVars s (s.vars.amx.stk + s.ebx) } := by
  refine ⟨(s.flags.add s.vars.amx.frm s.ebx).add s.vars.amx.stk s.ebx, ?_⟩
  simp only [execContSwitch, runSeq_cons, runSeq_nil, exec, State.load, State.store, State.alu,
    State.get, State.set, Option.bind_some, Option.map_some, Cells.get, Cells.ptr, Cells.set,
    Vars.get, Vars.set, Vars.ptr, RuntimeInfoBlock.get, RuntimeInfoBlock.set, Amx.get, hamx, if_pos,
    switchedVars]

/-- the structures after `reset_esp` and `reset_ebp` have been set -/
def resetVars (s : Machine) : Vars :=
  { s.vars with rib := { s.vars.rib with resetEsp := s.esp + -4, resetEbp := s.ebp } }

theorem leaReset_run (adr : Label → Option Word) (s : Machine) (d : Word) :
    runSeq adr ([.lea ecx (ptr esp d), .mov resetEspLabel ecx, .mov resetEbpLabel ebp] : Code) s =
      some { s with
        ecx := s.esp + d,
        vars := { s.vars with rib := { s.vars.rib with resetEsp := s.esp + d, resetEbp := s.ebp } } } := by
  simp only [runSeq_cons, runSeq_nil, exec, State.load, State.store, State.get, State.set, State.ea,
    ptr, Option.bind_some, Cells.set, Vars.set, RuntimeInfoBlock.set]

theorem execHelperReset_run (adr : Label → Option Word) (s : Machine) :
    runSeq adr execHelperReset s = some { s with ecx := s.esp + -4, vars := resetVars s } :=
  leaReset_run adr s (-4)

/-- the structures after `reset_stk` and `reset_hea` have been taken from the AMX structure -/
def contVars (v : Vars) : Vars :=
  { v with rib := { v.rib with resetStk := v.amx.resetStk, resetHea := v.amx.resetHea } }

theorem execContReset_run (adr : Label → Option Word) (s : Machine) (hesi : s.esi = s.vars.amxPtr) :
    runSeq adr execContReset s = some { s with
      eax := s.vars.amx.cip, vars := contVars s.vars } := by
  simp only [execContReset, runSeq_cons, runSeq_nil, exec, State.load, State.store, State.get,
    State.set, Option.bind_some, Cells.get, Cells.ptr, Cells.set, Vars.get, Vars.set, Vars.ptr,
    RuntimeInfoBlock.set, Amx.get, hesi, if_pos, contVars]

/-- what `Exec` does between the checks and the call of the helper -/
theorem execPublicArgs_run (adr : Label → Option Word) (s : Machine) :
    runSeq adr execPublicArgs s = some { s with
      eax := s.vars.rib.amx, esp := s.esp - 4 - 4,
      mem := pushes s.mem s.esp [s.mem.read32 (s.ebp + 8), s.vars.rib.amx] } := by
  simp only [execPublicArgs, runSeq_cons, runSeq_nil, exec, State.load, State.store, State.get,
    State.set, State.push, State.ea, ptr, Option.bind_some, Option.map_some, Cells.get, Vars.get,
    RuntimeInfoBlock.get, pushes]

theorem execTestPublic_run (adr : Label → Option Word) (s : Machine) :
    ∃ fl : Flags, fl.zf = decide (s.eax = 0) ∧ runSeq adr execTestPublic s = some { s with
      esp := s.esp + 8, flags := fl } := by
  refine ⟨(s.flags.add s.esp 8).logic (s.eax &&& s.eax), test_e _ _, ?_⟩
  simp only [execTestPublic, runSeq_cons, runSeq_nil, exec, State.load, State.store, State.alu,
    State.get, State.set, Option.bind_some, Option.map_some]

theorem execStartArgs_run {adr : Label → Option Word} (s : Machine) {a : Word}
    (ha : adr .ribStart = some a) :
    runSeq adr execStartArgs s = some { s with
      ecx := a, esp := s.esp - 4 - 4, mem := pushes s.mem s.esp [a, s.eax] } := by
  simp only [execStartArgs, runSeq_cons, runSeq_nil, exec, State.load, State.get, State.set,
    State.push, Option.bind_some, Option.map_some, ha, pushes]

theorem saveLocals_run (adr : Label → Option Word) (s : Machine) (v d1 d2 d3 d4 d5 : Word) :
    ∃ fl : Flags, runSeq adr ([.add esp v, .mov (ptr ebp d1) eax,
      .mov eax resetEbpLabel, .mov (ptr ebp d2) eax,
      .mov eax resetEspLabel, .mov (ptr ebp d3) eax,
      .mov eax resetStkLabel, .mov (ptr ebp d4) eax,
      .mov eax resetHeaLabel, .mov (ptr ebp d5) eax] : Code) s = some { s with
        eax := s.vars.rib.resetHea, esp := s.esp + v, flags := fl,
        mem := ((((s.mem.write32 (s.ebp + d1) s.eax).write32 (s.ebp + d2)
          s.vars.rib.resetEbp).write32 (s.ebp + d3) s.vars.rib.resetEsp).write32 (s.ebp + d4)
          s.vars.rib.resetStk).write32 (s.ebp + d5) s.vars.rib.resetHea } := by
  refine ⟨s.flags.add s.esp v, ?_⟩
  simp only [runSeq_cons, runSeq_nil, exec, State.load, State.store, State.alu, State.get, State.set,
    State.ea, ptr, Option.bind_some, Option.map_some, Cells.get, Vars.get, RuntimeInfoBlock.get]

theorem pushLocal_run (adr : Label → Option Word) (s : Machine) (d : Word) :
    runSeq adr ([.push (ptr ebp d)] : Code) s = some (s.push (s.mem.read32 (s.ebp + d))) := by
  simp only [runSeq_cons, runSeq_nil, exec, State.load, State.get, State.ea, ptr, Option.bind_some,
    Option.map_some]

/-! ## the frame -/

/-- how much `Exec` has used of its stack at the call of the helper -/
def Mode.used : Mode → Nat
  | .start => 40
  | .continue' => 36

theorem Mode.used_eq (k : Mode) (p : Word) : p - k.depth + 24 = p - BitVec.ofNat 32 k.used := by
  cases k with
  | start => exact sub_add_lit p (by decide)
  | continue' => exact sub_add_lit p (by decide)

/-- what `Exec` has on its stack when the helper is called -/
structure Prepared (env : Env) (u : Machine) (k : Mode) (m : Mem) : Prop where
  saved : Saved u m
  resetEbp : m.read32 (u.esp - 12) = k.saved u u.vars.rib.resetEbp 12
  resetEsp : m.read32 (u.esp - 16) = k.saved u u.vars.rib.resetEsp 16
  resetStk : m.read32 (u.esp - 20) = k.saved u u.vars.rib.resetStk 20
  resetHea : m.read32 (u.esp - 24) = k.saved u u.vars.rib.resetHea 24
  back : BackTo env (m.read32 (u.esp - k.depth + 24)) k
  mem : Set.EqOn m u.mem (below u.esp env.need)ᶜ

/-- the helper that enters the script -/
def Mode.helper : Mode → Label
  | .start => .execHelper
  | .continue' => .execContHelper

/-- `Exec` has called the helper. -/
structure AtHelper (env : Env) (u : Machine) (k : Mode) (s : Machine) : Prop where
  prepared : Prepared env u k s.mem
  pc : env.jit.image.addr k.helper = some s.pc
  esp : s.esp = u.esp - BitVec.ofNat 32 k.used
  ebx : s.ebx = dataBase u.vars
  ebp : s.ebp = u.esp - 4
  esi : s.esi = u.vars.amxPtr
  edi : s.edi = u.edi
  vars : s.vars = clearedVars u.vars

/-- it stays when the stack below is used -/
theorem Prepared.below {m' : Mem} {n : Nat} (hp : Prepared env u k m)
    (h : Set.EqOn m' m (X86.below (u.esp - k.depth + 24) n)ᶜ) (hn : n + 40 ≤ env.need) :
    Prepared env u k m' := by
  have hw := env.window_le
  have hused : 36 ≤ k.used ∧ k.used ≤ 40 := by
    cases k <;> decide
  have hneed : env.need = env.window + 256 := rfl
  rw [k.used_eq] at h
  have hword (v : Word) (h4 : 4 ≤ v.toNat) (hv : v.toNat ≤ k.used) :
      m'.read32 (u.esp - v) = m.read32 (u.esp - v) := by
    have he : BitVec.ofNat 32 v.toNat = v := by rw [BitVec.ofNat_toNat, BitVec.setWidth_eq]
    have hb : bytes (u.esp - BitVec.ofNat 32 v.toNat) 4 ⊆
        (X86.below (u.esp - BitVec.ofNat 32 k.used) n)ᶜ := bytes_above h4 hv (by omega)
    rw [he] at hb
    exact EqOn.read32 h hb
  have hret : m'.read32 u.esp = m.read32 u.esp := by
    refine EqOn.read32 h ?_
    have hb : X86.below (u.esp - BitVec.ofNat 32 k.used) n ⊆ X86.below u.esp (n + k.used) :=
      below_below (le_refl _) (by omega)
    refine Set.subset_compl_iff_disjoint_right.mpr ?_
    exact (Set.disjoint_of_subset_left hb (below_disjoint (by omega))).symm
  have hback : m'.read32 (u.esp - k.depth + 24) = m.read32 (u.esp - k.depth + 24) := by
    rw [k.used_eq]
    exact EqOn.read32 h (bytes_above (by omega) (le_refl _) (by omega))
  have hmem : Set.EqOn m' m (X86.below u.esp env.need)ᶜ :=
    h.mono (Set.compl_subset_compl.mpr (below_below (by omega) (by omega)))
  refine ⟨⟨hret.trans hp.saved.ret, ?_, ?_, ?_⟩, ?_, ?_, ?_, ?_, ?_, hmem.trans hp.mem⟩
  · exact (hword 4 (by decide) (le_trans (by decide) hused.1)).trans hp.saved.ebp
  · exact (hword 28 (by decide) (le_trans (by decide) hused.1)).trans hp.saved.esi
  · exact (hword 32 (by decide) (le_trans (by decide) hused.1)).trans hp.saved.ebx
  · exact (hword 12 (by decide) (le_trans (by decide) hused.1)).trans hp.resetEbp
  · exact (hword 16 (by decide) (le_trans (by decide) hused.1)).trans hp.resetEsp
  · exact (hword 20 (by decide) (le_trans (by decide) hused.1)).trans hp.resetStk
  · exact (hword 24 (by decide) (le_trans (by decide) hused.1)).trans hp.resetHea
  · rw [hback]
    exact hp.back

/-- the frame after the pushes of the helper -/
theorem Prepared.frame (hu : env.Entry u) (hp : Prepared env u k m) :
    Frame env u k (pushes m (u.esp - k.depth + 24) [u.vars.amxPtr, u.edi, u.vars.rib.ebp,
      u.vars.rib.esp, u.vars.rib.amxEbp, u.vars.rib.amxEsp]) := by
  set args := [u.vars.amxPtr, u.edi, u.vars.rib.ebp, u.vars.rib.esp, u.vars.rib.amxEbp,
    u.vars.rib.amxEsp] with hargs
  have hw := env.window_le
  have hp' : Prepared env u k (pushes m (u.esp - k.depth + 24) args) := by
    refine hp.below (n := 24) (pushes_eqOn m _ args (show 4 * 6 < 2^32 by omega)) ?_
    show 24 + 40 ≤ env.window + 256
    omega
  have hread (i : Nat) (o v : Word) (ho : 24 - o = v) (ho' : o = BitVec.ofNat 32 (4 * (i + 1)))
      (hi : i < 6) :
      (pushes m (u.esp - k.depth + 24) args).read32 (u.esp - k.depth + v) = args[i] := by
    rw [← ho, ← add_sub_assoc, ho']
    exact read_pushes m _ args hi (show 4 * 6 < 2^32 by omega)
  have h0 : (pushes m (u.esp - k.depth + 24) args).read32 (u.esp - k.depth) = u.vars.rib.amxEsp := by
    have hz : u.esp - k.depth + 0 = u.esp - k.depth := BitVec.add_zero _
    have := hread 5 24 0 (by decide) rfl (by omega)
    rwa [hz] at this
  have habove : ∀ a ∈ bytes u.esp 12 ∪ upTo env.top (u.esp + 12),
      pushes m (u.esp - k.depth + 24) args a = u.mem a := by
    obtain ⟨h1, h2⟩ := hu.room
    have h3 := (hu.depth k).2.2
    have hlt : (env.top - env.lo).toNat < 2^32 := BitVec.isLt _
    have h12 := hu.args
    intro a ha
    refine hp'.mem ?_
    have hd : Disjoint (X86.below u.esp env.need) (bytes u.esp (env.top - u.esp).toNat) :=
      below_disjoint (by omega)
    refine fun hb => Set.disjoint_left.mp hd hb ?_
    rcases ha with ha | ha
    · exact bytes_mono h12 ha
    · have hv : (12 : Word).toNat = 12 := rfl
      have ha' : (a - (u.esp + 12)).toNat < (env.top - (u.esp + 12)).toNat := ha
      show (a - u.esp).toNat < (env.top - u.esp).toNat
      simp only [BitVec.toNat_sub, BitVec.toNat_add, hv] at ha' h12 ⊢
      omega
  have hretval : (pushes m (u.esp - k.depth + 24) args).read32 (u.esp + 8) =
      u.mem.read32 (u.esp + 8) :=
    EqOn.read32 (K := bytes u.esp 12) (fun a ha => habove a (.inl ha)) (bytes_sub (i := 8) (by omega))
  refine ⟨hp'.saved, h0, ?_, ?_, ?_, ?_, ?_, hp'.back, hretval, hp'.resetEbp, hp'.resetEsp,
    hp'.resetStk, hp'.resetHea, fun a ha => habove a (.inr ha)⟩
  · exact hread 4 20 4 (by decide) rfl (by omega)
  · exact hread 3 16 8 (by decide) rfl (by omega)
  · exact hread 2 12 12 (by decide) rfl (by omega)
  · exact hread 1 8 16 (by decide) rfl (by omega)
  · exact hread 0 4 20 (by decide) rfl (by omega)

/-! ## the start of the script -/

end Env

/-- STK for the entry function, with the parameter size on top -/
def startEsp (u : Machine) : Word := u.vars.amx.stk - 4 + Env.dataBase u.vars

/-- the structures when the script starts -/
def startVars (u : Machine) : Vars :=
  let a := u.vars.amx
  let frm := a.frm + Env.dataBase u.vars
  { u.vars with
    rib := { u.vars.rib with
      ebp := u.esp - 4, esp := u.esp - 64, amxEbp := frm, amxEsp := startEsp u,
      resetEbp := frm, resetEsp := startEsp u + -4, resetStk := a.stk + a.paramcount * 4,
      resetHea := a.hea }
    amx := { a with error := AMX_ERR_NONE, paramcount := 0 } }

namespace Env

/-- The script starts at the address `p`. -/
structure Started (env : Env) (u : Machine) (p : Word) (t : Machine) : Prop where
  inFrame : InFrame env u .start t
  pc : t.pc = p
  esp : t.esp = startEsp u - 4
  ebp : t.ebp = u.vars.amx.frm + dataBase u.vars
  ret : env.jit.image.addr .callReturn = some t.top
  params : t.mem.read32 (startEsp u) = u.vars.amx.paramcount * 4
  vars : t.vars = startVars u
  mem : Set.EqOn t.mem u.mem (below u.esp env.need ∪ bytes (startEsp u - 4) 8)ᶜ

variable {env : Env} {R : Machine → Machine → Prop} {P Q : Machine → Prop} {u s : Machine} {k : Mode}
  {m : Mem}

/-- the cells that `ExecHelper` writes -/
theorem start_amxMem (hu : env.Entry u) : bytes (startEsp u - 4) 8 ⊆ env.amxMem := by
  refine Set.Subset.trans ?_ hu.stack
  have he : startEsp u - 4 = dataBase u.vars + u.vars.amx.stk - BitVec.ofNat 32 8 := by
    unfold startEsp
    rw [add_comm, ← add_sub_assoc]
    exact sub_sub_lit _ (by decide)
  rw [he]
  refine bytes_below (le_refl 8) ?_
  unfold need
  omega

theorem until_execHelper (hD : env.Drives R P) (hu : env.Entry u) {p : Word}
    (hs : AtHelper env u .start s) (hadr : s.mem.read32 (s.esp + 4) = p)
    (h : ∀ t, Started env u p t → Until R P Q t) : Until R P Q s := by
  obtain ⟨hp, hpc, hesp, hebx, hebp, hesi, hedi, hvars⟩ := hs
  rw [show u.esp - BitVec.ofNat 32 Mode.start.used = u.esp - 40 from rfl] at hesp
  obtain ⟨a, b, d, _, hfront, hret, -⟩ := env.jit.helper_parts
  have hretl : env.jit.image.addr .callReturn = some b :=
    (seg_label.mp (by simpa only [helperReturn, List.append_assoc] using hret)).1
  unfold helperFront at hfront
  simp only [List.append_assoc] at hfront
  obtain ⟨hl, hseg⟩ := seg_label.mp hfront
  obtain rfl : s.pc = a := Option.some.inj (hpc.symm.trans hl)
  obtain ⟨x1, hs1, hseg⟩ := seg_append.mp hseg
  obtain ⟨x2, hs2, n, hf, hn⟩ := seg_append.mp hseg
  obtain rfl : n = b := hn
  obtain ⟨y1, hc1, hs2⟩ := seg_code (execAddress ++ execHelperSave) (t := execHelperParams ++
    (execHelperSwitch ++ execHelperReset)) (by simpa only [List.append_assoc] using hs2)
  obtain ⟨y2, hc2, hs2⟩ := seg_code execHelperParams hs2
  obtain ⟨y3, hc3, hc4⟩ := seg_code execHelperSwitch hs2
  have hw := env.window_le
  have e40 : u.esp - Mode.start.depth + 24 = u.esp - 40 := Mode.used_eq .start u.esp
  refine until_debugPrint hD hs1 fun fl m _ hm => ?_
  have hp' : Prepared env u .start m := by
    refine hp.below (n := env.window + 32) ?_ ?_
    · rw [e40, ← hesp]
      exact hm
    · unfold need
      omega
  have hadr' : m.read32 (s.esp + 4) = p := by
    rw [← hadr]
    have hb : Set.EqOn m s.mem (bytes s.esp 8) :=
      hm.mono (Set.subset_compl_iff_disjoint_left.mpr (below_disjoint (by omega)))
    exact EqOn.read32 hb (bytes_sub (i := 4) (by omega))
  have hframe := hp'.frame hu
  rw [e40, ← hesp] at hframe
  refine until_run hD.driven hD.passes hc1 rfl (execHelperSave_run _ _) ?_
  dsimp only
  rw [hadr', hesi, hedi, hvars]
  set m1 := pushes m s.esp [u.vars.amxPtr, u.edi, (clearedVars u.vars).rib.ebp,
    (clearedVars u.vars).rib.esp, (clearedVars u.vars).rib.amxEbp, (clearedVars u.vars).rib.amxEsp]
    with hm1
  refine until_run hD.driven hD.passes hc2 rfl
    (execHelperParams_run _ _ (by exact hu.amx)).choose_spec ?_
  refine until_run hD.driven hD.passes hc3 rfl (execHelperSwitch_run _ _ rfl).choose_spec ?_
  refine until_run hD.driven hD.passes hc4 rfl (execHelperReset_run _ _) ?_
  refine until_instr hD.driven hD.passes hf (not_call fun l => by simp) rfl (h _ ?_)
  -- the two cells on the AMX stack
  have hcells : Set.EqOn ((m1.write32 (startEsp u) (u.vars.amx.paramcount * 4)).write32
      (startEsp u - 4) n) m1 (bytes (startEsp u - 4) 8)ᶜ := by
    have he : startEsp u = startEsp u - 4 + BitVec.ofNat 32 4 := (BitVec.sub_add_cancel _ _).symm
    have h1 : Disjoint (bytes (startEsp u - 4) 4) (bytes (startEsp u - 4) 8)ᶜ :=
      Set.disjoint_compl_right_iff_subset.mpr (bytes_mono (by omega))
    have h2 : Disjoint (bytes (startEsp u) 4) (bytes (startEsp u - 4) 8)ᶜ := by
      refine Set.disjoint_compl_right_iff_subset.mpr ?_
      have hsub := bytes_sub (p := startEsp u - 4) (i := 4) (k := 4) (n := 8) (by omega)
      rwa [← he] at hsub
    exact (eqOn_write n h1).trans (eqOn_write _ h2)
  have hstart : (clearedVars u.vars).amx.stk - 4 + s.ebx = startEsp u := by
    rw [hebx]
    rfl
  have e64 : s.esp - 24 = u.esp - 64 := by
    rw [hesp]
    exact sub_sub_lit _ (by decide)
  unfold State.push
  dsimp only [State.get]
  rw [hebx, hebp, e64]
  have hm1u : Set.EqOn m1 u.mem (below u.esp env.need)ᶜ := by
    have hlen : Set.EqOn m1 m (below s.esp 24)ᶜ := pushes_eqOn m s.esp _ (show 4 * 6 < 2^32 by omega)
    refine (hlen.mono (Set.compl_subset_compl.mpr ?_)).trans hp'.mem
    rw [hesp]
    exact below_below (i := 40) (by
      unfold need
      omega) (by
      unfold need
      omega)
  have hframe' : Frame env u .start ((m1.write32 (startEsp u) (u.vars.amx.paramcount * 4)).write32
      (startEsp u - 4) n) := by
    refine hframe.congr hu (hcells.mono ?_)
    exact (upTo_amxMem hu .start).trans (Set.compl_subset_compl.mpr (start_amxMem hu))
  refine ⟨⟨hframe', rfl, rfl, hu.amx, rfl, hu.callback, rfl, rfl⟩, rfl, rfl, rfl, ?_, ?_, rfl, ?_⟩
  · exact hretl.trans (congrArg some (read32_write32_self _ _ _).symm)
  · refine (read32_write32_sep _ _ _ _ ?_).trans (read32_write32_self _ _ _)
    show Sep (startEsp u - 4) (startEsp u)
    rw [sub_eq_add_neg]
    exact (sep_add_self _ _).mpr (by decide)
  · refine (hcells.mono (Set.compl_subset_compl.mpr Set.subset_union_right)).trans ?_
    exact hm1u.mono (Set.compl_subset_compl.mpr Set.subset_union_left)

/-! ## the script continues -/

end Env

/-- the structures when the script continues -/
def continuedVars (u : Machine) : Vars :=
  let a := u.vars.amx
  let frm := a.frm + Env.dataBase u.vars
  let stk := a.stk + Env.dataBase u.vars
  { u.vars with
    rib := { u.vars.rib with
      ebp := u.esp - 4, esp := u.esp - 60, amxEbp := frm, amxEsp := stk, resetEbp := frm,
      resetEsp := stk + -4, resetStk := a.resetStk, resetHea := a.resetHea }
    amx := { a with error := AMX_ERR_NONE } }

namespace Env

/-- The script continues after a sleep. -/
structure Continued (env : Env) (u t : Machine) : Prop where
  inFrame : InFrame env u .continue' t
  pc : t.pc = getJITInstrPtr env.jit.instrTable u.vars.amx.cip
  eax : t.eax = u.vars.amx.pri
  ecx : t.ecx = u.vars.amx.alt
  esp : t.esp = u.vars.amx.stk + dataBase u.vars
  ebp : t.ebp = u.vars.amx.frm + dataBase u.vars
  vars : t.vars = continuedVars u
  mem : Set.EqOn t.mem u.mem
    (below u.esp env.need ∪ below (u.vars.amx.stk + dataBase u.vars) env.need)ᶜ

variable {env : Env} {R : Machine → Machine → Prop} {P Q : Machine → Prop} {u s : Machine} {k : Mode}
  {m : Mem}

theorem execContRegs_run (adr : Label → Option Word) (s : Machine) (hesi : s.esi = s.vars.amxPtr) :
    runSeq adr execContRegs s = some { s with
      edx := s.eax, eax := s.vars.amx.pri, ecx := s.vars.amx.alt } := by
  simp only [execContRegs, runSeq_cons, runSeq_nil, exec, State.load, State.store, State.get,
    State.set, Option.bind_some, Cells.get, Cells.ptr, Vars.get, Vars.ptr, Amx.get, hesi, if_pos]

theorem until_execContHelper (hD : env.Drives R P) (hu : env.Entry u)
    (hsleep : env.jit.compiler.enableSleep = true)
    (hs : AtHelper env u .continue' s) (h : ∀ t, Continued env u t → Until R P Q t) :
    Until R P Q s := by
  obtain ⟨hp, hpc, hesp, hebx, hebp, hesi, hedi, hvars⟩ := hs
  rw [show u.esp - BitVec.ofNat 32 Mode.continue'.used = u.esp - 36 from rfl] at hesp
  have hin : emitExecContHelper env.jit.compiler <:+: env.jit.runtime := by
    refine env.jit.infix_runtime (p := if env.jit.compiler.enableSleep then
      emitExecContHelper env.jit.compiler else []) (by simp [Jit.parts]) ?_
    rw [if_pos hsleep]
  obtain ⟨a, e, hseg⟩ := env.jit.part hin
  unfold emitExecContHelper at hseg
  simp only [List.append_assoc] at hseg
  obtain ⟨hl, hseg⟩ := seg_label.mp hseg
  obtain rfl : s.pc = a := Option.some.inj (hpc.symm.trans hl)
  obtain ⟨x1, hs1, hseg⟩ := seg_append.mp hseg
  obtain ⟨x2, hs2, hseg⟩ := seg_append.mp hseg
  obtain ⟨x3, hs3, hseg⟩ := seg_append.mp hseg
  obtain ⟨x4, hs4, n, hf, -⟩ := seg_append.mp hseg
  obtain ⟨y1, hc1, hs2⟩ := seg_code (execAddress ++ execHelperSave) (t := execContSwitch ++
    (execHelperReset ++ execContReset)) (by simpa only [List.append_assoc] using hs2)
  obtain ⟨y2, hc2, hs2⟩ := seg_code execContSwitch hs2
  obtain ⟨y3, hc3, hc4⟩ := seg_code execHelperReset hs2
  have hw := env.window_le
  have hneed : env.need = env.window + 256 := rfl
  have e36 : u.esp - Mode.continue'.depth + 24 = u.esp - 36 := Mode.used_eq .continue' u.esp
  refine until_debugPrint hD hs1 fun fl m _ hm => ?_
  have hp' : Prepared env u .continue' m := by
    refine hp.below (n := env.window + 32) ?_ (by omega)
    rw [e36, ← hesp]
    exact hm
  have hframe := hp'.frame hu
  rw [e36, ← hesp] at hframe
  refine until_run hD.driven hD.passes hc1 rfl (execHelperSave_run _ _) ?_
  dsimp only
  rw [hesi, hedi, hvars]
  set m1 := pushes m s.esp [u.vars.amxPtr, u.edi, (clearedVars u.vars).rib.ebp,
    (clearedVars u.vars).rib.esp, (clearedVars u.vars).rib.amxEbp, (clearedVars u.vars).rib.amxEsp]
    with hm1
  refine until_run hD.driven hD.passes hc2 rfl
    (execContSwitch_run _ _ (by exact hu.amx)).choose_spec ?_
  refine until_run hD.driven hD.passes hc3 rfl (execHelperReset_run _ _) ?_
  refine until_run hD.driven hD.passes hc4 rfl (execContReset_run _ _ rfl) ?_
  refine until_jumpLookup hD hs3 fun fl' m2 _ hm2 => ?_
  refine until_run hD.driven hD.passes hs4 rfl (execContRegs_run _ _ rfl) ?_
  refine until_instr hD.driven hD.passes hf (not_call fun l => by simp) rfl (h _ ?_)
  have e60 : s.esp - 24 = u.esp - 60 := by
    rw [hesp]
    exact sub_sub_lit _ (by decide)
  have hm2' : Set.EqOn m2 m1 (below (u.vars.amx.stk + s.ebx) env.need)ᶜ :=
    hm2.mono (Set.compl_subset_compl.mpr (below_mono (by omega)))
  rw [hebx] at hm2'
  have hstk : u.vars.amx.stk + dataBase u.vars = dataBase u.vars + u.vars.amx.stk := add_comm _ _
  have hm1u : Set.EqOn m1 u.mem (below u.esp env.need)ᶜ := by
    have hlen : Set.EqOn m1 m (below s.esp 24)ᶜ := pushes_eqOn m s.esp _ (show 4 * 6 < 2^32 by omega)
    refine (hlen.mono (Set.compl_subset_compl.mpr ?_)).trans hp'.mem
    rw [hesp]
    exact below_below (i := 36) (by omega) (by omega)
  have hframe' : Frame env u .continue' m2 := by
    refine hframe.congr hu (hm2'.mono ?_)
    refine (upTo_amxMem hu .continue').trans (Set.compl_subset_compl.mpr ?_)
    rw [hstk]
    exact hu.stack
  refine ⟨⟨hframe', e60, hebp, hu.amx, rfl, hu.callback, rfl, hebx⟩, rfl, rfl, rfl,
    congrArg (u.vars.amx.stk + ·) hebx, congrArg (u.vars.amx.frm + ·) hebx, ?_, ?_⟩
  · have hvars' : ({ clearedVars u.vars with
        rib := { u.vars.rib with
          ebp := s.ebp, esp := s.esp - 24, amxEbp := u.vars.amx.frm + s.ebx,
          amxEsp := u.vars.amx.stk + s.ebx, resetEbp := u.vars.amx.frm + s.ebx,
          resetEsp := u.vars.amx.stk + s.ebx + -4, resetStk := u.vars.amx.resetStk,
          resetHea := u.vars.amx.resetHea } } : Vars) = continuedVars u := by
      rw [hebx, hebp, e60]
      rfl
    exact hvars'
  · refine (hm2'.mono (Set.compl_subset_compl.mpr Set.subset_union_right)).trans ?_
    exact hm1u.mono (Set.compl_subset_compl.mpr Set.subset_union_left)

/-! ## the whole way -/

end Env

/-- The public function that `Exec` looks for.  The header and the table are those that have been
compiled: nothing in the repository writes to them (`Unaltered.entryAddress`). -/
def Jit.entryAddress (jit : Jit) (u : Machine) : Word :=
  jit.amx.getPublicAddress (u.mem.read32 (u.esp + 4))

namespace Env

section
variable (c : CompilerImpl)

def execToCont : Buffer :=
  if c.enableSleep then asm execCheckCont ++ emit (.jcc .e .continueFromSleep) else []

def execStart : Buffer :=
  asm execPublicArgs ++ emit (.callAbs c.getPublicAddress) ++
  asm execTestPublic ++ emit (.jcc .e .publicNotFound) ++
  asm execStartArgs ++ emit (.callAbs c.getJITInstrPtr) ++
  asm execSaveReset ++ emit (.call .execHelper) ++ asm [.add esp (4 : Word)]

theorem execFront_eq : execFront c = execChecks ++ execToCont c ++ execStart c := by
  unfold execFront execChecks execToCont execStart
  simp only [List.append_assoc]

end

variable {env : Env} {R : Machine → Machine → Prop} {P Q : Machine → Prop} {u s : Machine} {k : Mode}
  {m : Mem}

theorem execCheckCont_run (adr : Label → Option Word) (s : Machine) :
    runSeq adr execCheckCont s = some { s with
      ecx := s.mem.read32 (s.ebp + 8), edx := AMX_EXEC_CONT,
      flags := s.flags.sub (s.mem.read32 (s.ebp + 8)) AMX_EXEC_CONT } := by
  simp only [execCheckCont, runSeq_cons, runSeq_nil, exec, State.load, State.store, State.get,
    State.set, State.ea, ptr, Option.bind_some, Option.map_some]

/-- the argument `index` -/
theorem read_index (u : Machine) {m : Mem} (hm : Set.EqOn m u.mem (below u.esp env.need)ᶜ) :
    m.read32 (u.esp - 4 + 8) = u.mem.read32 (u.esp + 4) := by
  have hw := env.window_le
  have he : u.esp - 4 + 8 = u.esp + 4 := by
    rw [sub_add_eq_add_sub, add_sub_assoc]
    rfl
  rw [he]
  have hb : Set.EqOn m u.mem (bytes u.esp 8) :=
    hm.mono (Set.subset_compl_iff_disjoint_left.mpr (below_disjoint (by
      unfold need
      omega)))
  exact EqOn.read32 hb (bytes_sub (i := 4) (by omega))

theorem prepared_enterMem {n : Word} (hb : BackTo env n .continue') :
    Prepared env u .continue' ((enterMem u).write32 (u.esp - 36) n) := by
  have hw := env.window_le
  have he : u.esp - Mode.continue'.depth + 24 = u.esp - 36 := Mode.used_eq .continue' u.esp
  have hread {v : Word} (h : Sep (-36) (-v)) :
      ((enterMem u).write32 (u.esp - 36) n).read32 (u.esp - v) = (enterMem u).read32 (u.esp - v) :=
    read32_write32_sep _ _ _ _ (sep_sub _ h)
  have hret : ((enterMem u).write32 (u.esp - 36) n).read32 u.esp = (enterMem u).read32 u.esp := by
    refine read32_write32_sep _ _ _ _ ?_
    rw [sub_eq_add_neg]
    exact (sep_add_self _ _).mpr (by decide)
  have hs := enterMem_saved u
  refine ⟨⟨hret.trans hs.ret, ?_, ?_, ?_⟩, ?_, ?_, ?_, ?_, ?_, ?_⟩
  · exact (hread (by decide)).trans hs.ebp
  · exact (hread (by decide)).trans hs.esi
  · exact (hread (by decide)).trans hs.ebx
  · exact (hread (by decide)).trans (enterMem_local u (by decide) (by decide) (by decide))
  · exact (hread (by decide)).trans (enterMem_local u (by decide) (by decide) (by decide))
  · exact (hread (by decide)).trans (enterMem_local u (by decide) (by decide) (by decide))
  · exact (hread (by decide)).trans (enterMem_local u (by decide) (by decide) (by decide))
  · rw [he, read32_write32_self]
    exact hb
  · refine (eqOn_write n ?_).trans ((enterMem_eqOn u).mono (Set.compl_subset_compl.mpr ?_))
    · exact Set.disjoint_compl_right_iff_subset.mpr (bytes_below (i := 36) (by omega) (by
        unfold need
        omega))
    · exact below_mono (by
        unfold need
        omega)

/-- the memory at the first instruction of `ExecHelper`: the local variables, the address `a` of the
script and the return address `n` -/
def startMem (m : Mem) (p a n : Word) (r : RuntimeInfoBlock) : Mem :=
  ((((((m.write32 (p - 8) a).write32 (p - 12) r.resetEbp).write32 (p - 16) r.resetEsp).write32
    (p - 20) r.resetStk).write32 (p - 24) r.resetHea).write32 (p - 36) a).write32 (p - 40) n

theorem startMem_eqOn (m : Mem) (p a n : Word) (r : RuntimeInfoBlock) :
    Set.EqOn (startMem m p a n r) m (below p 40)ᶜ := by
  have hsub (v : Word) (h : 4 ≤ v.toNat ∧ v.toNat ≤ 40) :
      Disjoint (bytes (p - v) 4) (below p 40)ᶜ := by
    have hv : BitVec.ofNat 32 v.toNat = v := by rw [BitVec.ofNat_toNat, BitVec.setWidth_eq]
    rw [← hv]
    exact Set.disjoint_compl_right_iff_subset.mpr (bytes_below h.1 h.2)
  refine (eqOn_write n (hsub 40 (by decide))).trans ?_
  refine (eqOn_write a (hsub 36 (by decide))).trans ?_
  refine (eqOn_write r.resetHea (hsub 24 (by decide))).trans ?_
  refine (eqOn_write r.resetStk (hsub 20 (by decide))).trans ?_
  refine (eqOn_write r.resetEsp (hsub 16 (by decide))).trans ?_
  refine (eqOn_write r.resetEbp (hsub 12 (by decide))).trans ?_
  exact eqOn_write a (hsub 8 (by decide))

theorem prepared_startMem {a n : Word} (hs : Saved u m)
    (hm : Set.EqOn m u.mem (below u.esp env.need)ᶜ) (hb : BackTo env n .start) :
    Prepared env u .start (startMem m u.esp a n u.vars.rib) := by
  have hw := env.window_le
  have he : u.esp - Mode.start.depth + 24 = u.esp - 40 := Mode.used_eq .start u.esp
  have hskip (v : Word) (h : Sep (-40) (-v) ∧ Sep (-36) (-v) ∧ Sep (-24) (-v) ∧ Sep (-20) (-v) ∧
      Sep (-16) (-v) ∧ Sep (-12) (-v) ∧ Sep (-8) (-v)) :
      (startMem m u.esp a n u.vars.rib).read32 (u.esp - v) = m.read32 (u.esp - v) := by
    obtain ⟨h40, h36, h24, h20, h16, h12, h8⟩ := h
    unfold startMem
    rw [read32_write32_sep _ _ _ _ (sep_sub _ h40), read32_write32_sep _ _ _ _ (sep_sub _ h36),
      read32_write32_sep _ _ _ _ (sep_sub _ h24), read32_write32_sep _ _ _ _ (sep_sub _ h20),
      read32_write32_sep _ _ _ _ (sep_sub _ h16), read32_write32_sep _ _ _ _ (sep_sub _ h12),
      read32_write32_sep _ _ _ _ (sep_sub _ h8)]
  have hret : (startMem m u.esp a n u.vars.rib).read32 u.esp = m.read32 u.esp :=
    EqOn.read32 (startMem_eqOn _ _ _ _ _)
      (Set.subset_compl_iff_disjoint_left.mpr (below_disjoint (by omega)))
  have hmem : Set.EqOn (startMem m u.esp a n u.vars.rib) u.mem (below u.esp env.need)ᶜ :=
    ((startMem_eqOn m u.esp a n u.vars.rib).mono (Set.compl_subset_compl.mpr (below_mono (by
      unfold need
      omega)))).trans hm
  refine ⟨⟨hret.trans hs.ret, (hskip 4 (by decide)).trans hs.ebp, (hskip 28 (by decide)).trans hs.esi,
    (hskip 32 (by decide)).trans hs.ebx⟩, ?_, ?_, ?_, ?_, ?_, hmem⟩
  · unfold startMem
    rw [read32_write32_sep _ _ _ _ (sep_sub _ (by decide)),
      read32_write32_sep _ _ _ _ (sep_sub _ (by decide)),
      read32_write32_sep _ _ _ _ (sep_sub _ (by decide)),
      read32_write32_sep _ _ _ _ (sep_sub _ (by decide)),
      read32_write32_sep _ _ _ _ (sep_sub _ (by decide)), read32_write32_self]
    rfl
  · unfold startMem
    rw [read32_write32_sep _ _ _ _ (sep_sub _ (by decide)),
      read32_write32_sep _ _ _ _ (sep_sub _ (by decide)),
      read32_write32_sep _ _ _ _ (sep_sub _ (by decide)),
      read32_write32_sep _ _ _ _ (sep_sub _ (by decide)), read32_write32_self]
    rfl
  · unfold startMem
    rw [read32_write32_sep _ _ _ _ (sep_sub _ (by decide)),
      read32_write32_sep _ _ _ _ (sep_sub _ (by decide)),
      read32_write32_sep _ _ _ _ (sep_sub _ (by decide)), read32_write32_self]
    rfl
  · unfold startMem
    rw [read32_write32_sep _ _ _ _ (sep_sub _ (by decide)),
      read32_write32_sep _ _ _ _ (sep_sub _ (by decide)), read32_write32_self]
    rfl
  · rw [he]
    unfold startMem
    rw [read32_write32_self]
    exact hb

/-- work below the registers that `Exec` has saved -/
theorem saved_below {m m' : Mem} {n : Nat} (hs : Saved u m)
    (hm : Set.EqOn m u.mem (below u.esp env.need)ᶜ)
    (h : Set.EqOn m' m (below (u.esp - 32) n)ᶜ) (hn : n + 32 ≤ env.need) :
    Saved u m' ∧ Set.EqOn m' u.mem (below u.esp env.need)ᶜ := by
  have hw := env.window_le
  have hneed : env.need = env.window + 256 := rfl
  refine ⟨hs.congr (h.mono ?_), (h.mono ?_).trans hm⟩
  · exact Set.subset_compl_iff_disjoint_left.mpr (below_disjoint (by omega))
  · exact Set.compl_subset_compl.mpr (below_below (i := 32) (by omega) (by omega))

theorem until_execStart (hD : env.Drives R P) {x y z e f : Word} {fl : Flags}
    (hseg : Seg env.jit.runtimeFetch env.jit.image.addr e (execStart env.jit.compiler) f)
    (hf : env.jit.image.addr .afterCall = some f)
    (hindex : env.jit.entryAddress u = 0 → ∀ t, Rejected env u AMX_ERR_INDEX t → Until R P Q t)
    (hstart : env.jit.entryAddress u ≠ 0 → ∀ s, AtHelper env u .start s →
      s.mem.read32 (s.esp + 4) = getJITInstrPtr env.jit.instrTable (env.jit.entryAddress u) →
      Until R P Q s) :
    Until R P Q (opened u x y z fl (enterMem u) (clearedVars u.vars) e) := by
  unfold execStart at hseg
  simp only [List.append_assoc] at hseg
  obtain ⟨x1, hs1, hseg⟩ := seg_append.mp hseg
  obtain ⟨x2, hs2, hseg⟩ := seg_append.mp hseg
  obtain ⟨x3, hs3, hseg⟩ := seg_append.mp hseg
  obtain ⟨x4, hs4, hseg⟩ := seg_append.mp hseg
  obtain ⟨x5, hs5, hseg⟩ := seg_append.mp hseg
  obtain ⟨x6, hs6, hseg⟩ := seg_append.mp hseg
  obtain ⟨x7, hs7, hseg⟩ := seg_append.mp hseg
  obtain ⟨x8, ⟨n, hcall, hn⟩, hs9⟩ := seg_append.mp hseg
  obtain rfl : n = x8 := hn
  obtain ⟨y1, hc1, hc2⟩ := seg_code [.add esp (8 : Word), .mov (ptr ebp (-4)) eax,
    .mov eax resetEbpLabel, .mov (ptr ebp (-8)) eax,
    .mov eax resetEspLabel, .mov (ptr ebp (-12)) eax,
    .mov eax resetStkLabel, .mov (ptr ebp (-16)) eax,
    .mov eax resetHeaLabel, .mov (ptr ebp (-20)) eax] hs7
  obtain ⟨rib, hrib⟩ := @ribStart_addr env
  have hw := env.window_le
  have hneed : env.need = env.window + 256 := rfl
  have hback : BackTo env n .start := ⟨f, hs9, hf⟩
  have hmem : Set.EqOn (enterMem u) u.mem (below u.esp env.need)ᶜ :=
    (enterMem_eqOn u).mono (Set.compl_subset_compl.mpr (below_mono (by omega)))
  have e40 : u.esp - 32 - 4 - 4 = u.esp - 40 := by
    rw [sub_sub_lit u.esp (c := 36) (by decide), sub_sub_lit u.esp (c := 40) (by decide)]
  have e32 : u.esp - 40 + 8 = u.esp - 32 := sub_add_lit u.esp (by decide)
  -- the C functions
  have hafter {m m1 m2 : Mem} {f : CFun} (hf : f.frame = 12) {vs : List Word} (hvs : vs.length = 2)
      (hs : Saved u m) (hm : Set.EqOn m u.mem (below u.esp env.need)ᶜ)
      (h1 : m1 = pushes m (u.esp - 32) vs)
      (h2 : Set.EqOn m2 m1 (below (u.esp - 40 + BitVec.ofNat 32 (f.frame - 4))
        (env.window + f.frame))ᶜ) :
      Saved u m2 ∧ Set.EqOn m2 u.mem (below u.esp env.need)ᶜ := by
    have he : u.esp - 40 + BitVec.ofNat 32 (f.frame - 4) = u.esp - 32 := by
      rw [hf]
      exact e32
    rw [he, hf] at h2
    have h3 : Set.EqOn m1 m (below (u.esp - 32) 8)ᶜ := by
      rw [h1]
      have hp := pushes_eqOn m (u.esp - 32) vs (by omega)
      rwa [hvs] at hp
    refine saved_below (n := env.window + 12) hs hm ((h2).trans (h3.mono ?_)) (by omega)
    exact Set.compl_subset_compl.mpr (below_mono (by omega))
  refine until_run hD.driven hD.passes hs1 rfl (execPublicArgs_run _ _) ?_
  refine until_callAbs hD .getPublicAddress hs2 fun v x' y' fl1 m1 hv _ hm1 => ?_
  dsimp only [opened] at hv hm1 ⊢
  rw [e40] at hm1 hv ⊢
  obtain ⟨hsaved1, hmem1⟩ := hafter (f := .getPublicAddress) rfl rfl (enterMem_saved u) hmem rfl hm1
  have hv' : v = env.jit.entryAddress u := by
    have hy : (pushes (enterMem u) (u.esp - 32) [(enterMem u).read32 (u.esp - 4 + 8),
        (clearedVars u.vars).rib.amx]).read32 (u.esp - 40 + 4) = u.mem.read32 (u.esp + 4) := by
      have he : u.esp - 40 + 4 = u.esp - 32 - BitVec.ofNat 32 (4 * (0 + 1)) := by
        rw [sub_add_lit u.esp (c := 36) (by decide)]
        exact (sub_sub_lit u.esp (by decide)).symm
      rw [he]
      exact (read_pushes (enterMem u) (u.esp - 32) [(enterMem u).read32 (u.esp - 4 + 8),
        (clearedVars u.vars).rib.amx] (i := 0) (by simp) (by simp)).trans (read_index u hmem)
    have hv2 := hv
    rw [hy] at hv2
    exact hv2
  obtain ⟨fl2, hzf, hrun2⟩ := execTestPublic_run env.jit.image.addr { u with
    eax := v, ecx := x', edx := y', ebx := dataBase u.vars, esp := u.esp - 40, ebp := u.esp - 4,
    esi := u.vars.amxPtr, flags := fl1, mem := m1, vars := clearedVars u.vars, pc := x2 }
  dsimp only at hrun2 hzf
  rw [e32] at hrun2
  refine until_run hD.driven hD.passes hs3 rfl hrun2 ?_
  obtain ⟨a, _, ha, -⟩ := env.jit.reject_part (.publicNotFound, AMX_ERR_INDEX) (by simp [rejects])
  refine until_jcc hD hs4 ha (fun ht => ?_) fun hn => ?_
  · have h0 : v = 0 := of_decide_eq_true (hzf.symm.trans ht)
    exact until_reject hD (show (Label.publicNotFound, AMX_ERR_INDEX) ∈ rejects by simp [rejects]) ha
      hsaved1 hmem1 (.inr rfl) (hindex (hv'.symm.trans h0))
  have h0 : v ≠ 0 := of_decide_eq_false (hzf.symm.trans hn)
  refine until_run hD.driven hD.passes hs5 rfl (execStartArgs_run _ hrib) ?_
  refine until_callAbs hD .getJITInstrPtr hs6 fun w x'' y'' fl3 m2 hw' _ hm2 => ?_
  dsimp only at hw' hm2 ⊢
  rw [e40] at hm2 hw' ⊢
  obtain ⟨hsaved2, hmem2⟩ := hafter (f := .getJITInstrPtr) rfl rfl hsaved1 hmem1 rfl hm2
  have hw2 : w = getJITInstrPtr env.jit.instrTable (env.jit.entryAddress u) := by
    have hx : (pushes m1 (u.esp - 32) [rib, v]).read32 (u.esp - 40) = v := by
      rw [← e40, sub_sub]
      exact read_pushes m1 (u.esp - 32) [rib, v] (i := 1) (by simp) (by simp)
    have hv2 := hw'
    rw [hx, hv'] at hv2
    exact hv2
  have e8 : u.esp - 4 + -4 = u.esp - 8 := sub_add_lit u.esp (by decide)
  have e12 : u.esp - 4 + -8 = u.esp - 12 := sub_add_lit u.esp (by decide)
  have e16 : u.esp - 4 + -12 = u.esp - 16 := sub_add_lit u.esp (by decide)
  have e20 : u.esp - 4 + -16 = u.esp - 20 := sub_add_lit u.esp (by decide)
  have e24 : u.esp - 4 + -20 = u.esp - 24 := sub_add_lit u.esp (by decide)
  have e36 : u.esp - 32 - 4 = u.esp - 36 := sub_sub_lit u.esp (by decide)
  have e40' : u.esp - 36 - 4 = u.esp - 40 := sub_sub_lit u.esp (by decide)
  obtain ⟨fl4, hrun4⟩ := saveLocals_run env.jit.image.addr { u with
    eax := w, ecx := x'', edx := y'', ebx := dataBase u.vars, esp := u.esp - 40, ebp := u.esp - 4,
    esi := u.vars.amxPtr, flags := fl3, mem := m2, vars := clearedVars u.vars, pc := x6 }
    8 (-4) (-8) (-12) (-16) (-20)
  dsimp only at hrun4
  rw [e32, e8, e12, e16, e20, e24] at hrun4
  refine until_run hD.driven hD.passes hc1 rfl hrun4 ?_
  refine until_run hD.driven hD.passes hc2 rfl (pushLocal_run _ _ _) ?_
  obtain ⟨b, _, _, _, hfront, -, -⟩ := env.jit.helper_parts
  have hhelper : env.jit.image.addr .execHelper = some b :=
    (seg_label.mp (by simpa only [helperFront, List.append_assoc] using hfront)).1
  have hlocal : (((((m2.write32 (u.esp - 8) w).write32 (u.esp - 12)
      (clearedVars u.vars).rib.resetEbp).write32 (u.esp - 16)
      (clearedVars u.vars).rib.resetEsp).write32 (u.esp - 20)
      (clearedVars u.vars).rib.resetStk).write32 (u.esp - 24)
      (clearedVars u.vars).rib.resetHea).read32 (u.esp - 8) = w := by
    rw [read32_write32_sep _ _ _ _ (sep_sub _ (by decide)),
      read32_write32_sep _ _ _ _ (sep_sub _ (by decide)),
      read32_write32_sep _ _ _ _ (sep_sub _ (by decide)),
      read32_write32_sep _ _ _ _ (sep_sub _ (by decide)), read32_write32_self]
  have hstep (t : Machine) : step env.jit.image.addr (.call .execHelper : Instr Cell Label) n t =
      some { t.push n with pc := b } := by
    show (env.jit.image.addr .execHelper).map _ = _
    rw [hhelper]
    rfl
  refine until_instr hD.driven hD.passes hcall (fun l hl => ?_) (hstep _) ?_
  · cases hl
    simp
  unfold State.push
  dsimp only
  rw [e8, hlocal, e36, e40']
  have hadr : (startMem m2 u.esp w n u.vars.rib).read32 (u.esp - 40 + 4) = w := by
    rw [sub_add_lit u.esp (c := 36) (by decide)]
    unfold startMem
    rw [read32_write32_sep _ _ _ _ (sep_sub _ (by decide)), read32_write32_self]
  refine hstart (fun h => h0 (hv'.trans h)) _ ?_ (hadr.trans hw2)
  exact ⟨prepared_startMem hsaved2 hmem2 hback, hhelper, rfl, rfl, rfl, rfl, rfl, rfl⟩

/-- from the entry of `Exec` to an early return or to the call of the helper -/
theorem until_enter (hD : env.Drives R P) (hexec : env.jit.image.addr .exec = some u.pc)
    (hamx : u.vars.rib.amx = u.vars.amxPtr)
    (hreject : ∀ error t, check u.vars.amx = some error → Rejected env u error t → Until R P Q t)
    (hindex : check u.vars.amx = none → ¬ Continues env u → env.jit.entryAddress u = 0 →
      ∀ t, Rejected env u AMX_ERR_INDEX t → Until R P Q t)
    (hstart : check u.vars.amx = none → ¬ Continues env u → env.jit.entryAddress u ≠ 0 →
      ∀ s, AtHelper env u .start s →
      s.mem.read32 (s.esp + 4) = getJITInstrPtr env.jit.instrTable (env.jit.entryAddress u) →
      Until R P Q s)
    (hcont : check u.vars.amx = none → Continues env u → ∀ s, AtHelper env u .continue' s →
      Until R P Q s) : Until R P Q u := by
  obtain ⟨a, b, _, _, f, g, hfront, hafter, -, -, hcontinue⟩ := env.jit.exec_parts
  have hafterl : env.jit.image.addr .afterCall = some b :=
    (seg_label.mp (by simpa only [execAfterCall, List.append_assoc] using hafter)).1
  have hpc : u.pc = a := by
    have hseg := hfront
    unfold execFront at hseg
    simp only [List.append_assoc] at hseg
    exact Option.some.inj (hexec.symm.trans (seg_label.mp hseg).1)
  subst hpc
  rw [execFront_eq] at hfront
  obtain ⟨x2, hfront, hs3⟩ := seg_append.mp hfront
  obtain ⟨x1, hs1, hs2⟩ := seg_append.mp hfront
  have hmem : Set.EqOn (enterMem u) u.mem (below u.esp env.need)ᶜ :=
    (enterMem_eqOn u).mono (Set.compl_subset_compl.mpr (below_mono (by
      unfold need
      omega)))
  refine until_checks hD hamx hs1 hreject fun hcheck x y z fl => ?_
  have hgo (x y z : Word) (fl : Flags) (hno : ¬ Continues env u) :
      Until R P Q (opened u x y z fl (enterMem u) (clearedVars u.vars) x2) :=
    until_execStart hD hs3 hafterl (hindex hcheck hno) (hstart hcheck hno)
  by_cases hsleep : env.jit.compiler.enableSleep = true
  · unfold execToCont at hs2
    unfold execContinue at hcontinue
    rw [if_pos hsleep] at hs2 hcontinue
    obtain ⟨y1, hc1, hc2⟩ := seg_append.mp hs2
    simp only [List.append_assoc] at hcontinue
    obtain ⟨hcl, hcontinue⟩ := seg_label.mp hcontinue
    obtain ⟨y2, ⟨n, hcall, hn⟩, hjmp⟩ := seg_append.mp hcontinue
    obtain rfl : n = y2 := hn
    refine until_run hD.driven hD.passes hc1 rfl (execCheckCont_run _ _) ?_
    refine until_jcc hD hc2 hcl (fun ht => ?_) fun hn => ?_
    · have heq : u.mem.read32 (u.esp + 4) = AMX_EXEC_CONT := by
        have h := of_decide_eq_true ((cmp_e fl _ AMX_EXEC_CONT).symm.trans ht)
        exact (read_index u hmem).symm.trans h
      have hin : emitExecContHelper env.jit.compiler <:+: env.jit.runtime := by
        refine env.jit.infix_runtime (p := if env.jit.compiler.enableSleep then
          emitExecContHelper env.jit.compiler else []) (by simp [Jit.parts]) ?_
        rw [if_pos hsleep]
      obtain ⟨c, _, hhelper⟩ := env.jit.part hin
      have hhelperl : env.jit.image.addr .execContHelper = some c := by
        unfold emitExecContHelper at hhelper
        simp only [List.append_assoc] at hhelper
        exact (seg_label.mp hhelper).1
      have hstep (t : Machine) :
          step env.jit.image.addr (.call .execContHelper : Instr Cell Label) n t =
            some { t.push n with pc := c } := by
        show (env.jit.image.addr .execContHelper).map _ = _
        rw [hhelperl]
        rfl
      refine until_instr hD.driven hD.passes hcall (fun l hl => ?_) (hstep _) ?_
      · cases hl
        simp
      have e36 : u.esp - 32 - 4 = u.esp - 36 := sub_sub_lit u.esp (by decide)
      unfold State.push
      dsimp only [opened]
      rw [e36]
      refine hcont hcheck ⟨hsleep, heq⟩ _ ?_
      exact ⟨prepared_enterMem ⟨_, hjmp⟩, hhelperl, rfl, rfl, rfl, rfl, rfl, rfl⟩
    · have hne : u.mem.read32 (u.esp + 4) ≠ AMX_EXEC_CONT := by
        have h := of_decide_eq_false ((cmp_e fl _ AMX_EXEC_CONT).symm.trans hn)
        exact fun he => h ((read_index u hmem).trans he)
      exact hgo x _ _ _ fun hc => hne hc.2
  · unfold execToCont at hs2
    rw [if_neg hsleep] at hs2
    obtain rfl : x1 = x2 := hs2
    exact hgo x y z fl fun hc => hsleep hc.1

/-- **From the entry of `Exec`** to an early return or into the script. -/
theorem until_exec (hD : env.Drives R P) (hu : env.Entry u)
    (hreject : ∀ error t, check u.vars.amx = some error → Rejected env u error t → Until R P Q t)
    (hindex : check u.vars.amx = none → ¬ Continues env u → env.jit.entryAddress u = 0 →
      ∀ t, Rejected env u AMX_ERR_INDEX t → Until R P Q t)
    (hstart : check u.vars.amx = none → ¬ Continues env u → env.jit.entryAddress u ≠ 0 →
      ∀ t, Started env u (getJITInstrPtr env.jit.instrTable (env.jit.entryAddress u)) t →
        Until R P Q t)
    (hcont : check u.vars.amx = none → Continues env u → ∀ t, Continued env u t → Until R P Q t) :
    Until R P Q u := by
  refine until_enter hD hu.pc hu.amx hreject hindex (fun hc hn h0 s hs hadr => ?_) fun hc hs s hat => ?_
  · exact until_execHelper hD hu hs hadr (hstart hc hn h0)
  · exact until_execContHelper hD hu hs.1 hat (hcont hc hs)

end Env

end AmxJit
