import AmxJit.Runtime.Indirect
import AmxJit.Runtime.Natives

/-!
# Sleep and continue

* `Point`           what there is of a script at the beginning of an instruction;
* `Suspends`        a run of `Exec` puts the script to sleep at a point: by `HALT`, or in a callee;
* `Holds`           the AMX structure and the AMX memory hold a point;
* `Stands`          the script is at a point, in the frame of a call of `Exec`;
* `must_suspend`    a script that is put to sleep leaves its point;
* `must_resume`     a call of `Exec` that continues brings it there;
* `Delivers`        the caller of `Exec` gets an error and a result;
* `sleep_continue`  the first two together, and what the caller of the second call gets.
-/

set_option linter.constructorNameAsVariable false

namespace AmxJit
open X86 Trans Reg

/-- what there is of a script in front of an instruction; `frm`, `stk` and `hea` are addresses in the
data section -/
structure Point where
  next : Instruction
  pri : Word
  alt : Word
  frm : Word
  stk : Word
  hea : Word
  resetStk : Word
  resetHea : Word
  mem : Mem

/-- the point in front of the instruction `j`: the registers of `s`, the rest of `t`, and `pri` -/
def pointOf (j : Instruction) (pri : Word) (s t : Machine) : Point where
  next := j
  pri := pri
  alt := s.ecx
  frm := s.ebp - s.ebx
  stk := s.esp - s.ebx
  hea := t.vars.amx.hea
  resetStk := t.vars.rib.resetStk
  resetHea := t.vars.rib.resetHea
  mem := t.mem

/-- AMX memory but for the `need` bytes below STK -/
def Point.kept (env : Env) (p : Point) (base : Word) : Set Word :=
  env.amxMem \ below (p.stk + base) env.need

namespace Env

/-- A run of `Exec`, entered in the state `u`, puts the script to sleep at a point: with `HALT`, in
the state in front of it, or in a callee, in the state in which it has returned.  The callee has not
run a script that would replace the saved registers, and its result is read from where it is. -/
inductive Suspends (env : Env) (R : Machine → Machine → Prop) (u : Machine) : Point → Machine → Prop
    where
  | halt {s : Machine} {i j : Instruction} : Relation.ReflTransGen R u s → i ∈ env.jit.instrs →
      i.opcode = .halt → i.operand = AMX_ERR_SLEEP → env.jit.native i.address = some s.pc →
      j ∈ env.jit.instrs → j.address = i.next → j.opcode ≠ .proc → env.AmxRoom s.esp →
      Suspends env R u (pointOf j s.eax s s) s
  | callee (f : Callee) {s c t : Machine} {i j : Instruction} : Relation.ReflTransGen R u s →
      i ∈ env.jit.instrs → i.opcode.requests = true → i.intrinsic env.jit.amx = none →
      env.jit.native i.address = some s.pc → Invokes env R f s c → R c t →
      t.vars.amx.error = AMX_ERR_SLEEP → f.error t = t.vars.amx.error →
      t.vars.amx.cip = c.vars.amx.cip →
      t.vars.amx.frm = c.vars.amx.frm → t.vars.amx.stk = c.vars.amx.stk →
      (f = .native ∨ t.mem.read32 t.ecx = f.result c t) →
      j ∈ env.jit.instrs → j.address = i.next → j.opcode ≠ .proc →
      Suspends env R u (pointOf j (f.result c t) s t) t

/-- The AMX structure and the AMX memory hold the point `p`. -/
structure Holds (env : Env) (p : Point) (v : Machine) : Prop where
  cip : env.jit.native p.next.address = some (getJITInstrPtr env.jit.instrTable v.vars.amx.cip)
  pri : v.vars.amx.pri = p.pri
  alt : v.vars.amx.alt = p.alt
  frm : v.vars.amx.frm = p.frm
  stk : v.vars.amx.stk = p.stk
  hea : v.vars.amx.hea = p.hea
  resetStk : v.vars.amx.resetStk = p.resetStk
  resetHea : v.vars.amx.resetHea = p.resetHea
  mem : Set.EqOn v.mem p.mem (p.kept env (dataBase v.vars))

/-- The script is at the point `p`, in the frame of the call of `Exec` that was entered in `u`. -/
structure Stands (env : Env) (u : Machine) (p : Point) (t : Machine) : Prop where
  inFrame : InFrame env u (env.mode u) t
  pc : env.jit.native p.next.address = some t.pc
  pri : t.eax = p.pri
  alt : t.ecx = p.alt
  frm : t.ebp = p.frm + dataBase u.vars
  stk : t.esp = p.stk + dataBase u.vars
  hea : t.vars.amx.hea = p.hea
  resetStk : t.vars.rib.resetStk = p.resetStk
  resetHea : t.vars.rib.resetHea = p.resetHea
  error : t.vars.amx.error = AMX_ERR_NONE
  const : amxConst t.vars = amxConst u.vars
  df : t.flags.df = u.flags.df
  mem : Set.EqOn t.mem p.mem (p.kept env (dataBase u.vars))

/-- The call of `Exec` that is entered in `u` finds the AMX as it was left in the state `v`, and is to
continue. -/
structure Wakes (env : Env) (v u : Machine) : Prop where
  continues : Continues env u
  check : check u.vars.amx = none
  amx : u.vars.amx = v.vars.amx
  hdr : u.vars.hdr = v.vars.hdr
  mem : Set.EqOn u.mem v.mem env.amxMem

variable {env : Env} {X : Machine → Machine → Prop} {u v s t : Machine} {p : Point}
  {i j : Instruction} {ret : Word}

/-! ## going to sleep -/

/-- the saved CIP leads back to the return address -/
theorem resume_ptr (hj : j ∈ env.jit.instrs) (hproc : j.opcode ≠ .proc) (hat : env.jit.At j ret) :
    env.jit.native j.address = some (getJITInstrPtr env.jit.instrTable
      (getANXAddressByJITInstrPtr env.jit.instrTable ret)) := by
  have hnat := hat.native hproc
  obtain ⟨a, ha, hmem⟩ := env.jit.native_mem hj
  rw [hnat] at ha
  cases ha
  obtain ⟨hfound, -⟩ := lookup_ptr (instrTable_sorted env.jit) hmem
  have hback := lookup_address (instrTable_sorted env.jit) hfound
  rw [hnat]
  exact congrArg some hback.symm

/-- `HALT` -/
theorem must_halt (hu : Entry env u) (hs : InFrame env u (env.mode u) s) (hi : i ∈ env.jit.instrs)
    (hop : i.opcode = .halt) (hpc : env.jit.native i.address = some s.pc)
    (hroom : env.AmxRoom s.esp) :
    ∃ ret, (∀ j ∈ env.jit.instrs, j.address = i.next → env.jit.At j ret) ∧
      Must (Step env X) (Left env u (.halt i.operand ret) s) s := by
  have hin := env.jit.inScript_native hpc
  obtain ⟨b, e, hb, hseg, hnext⟩ := Jit.code_at hi hpc
  unfold compileInstr controlCode at hb
  rw [hop] at hb
  cases (show some (emitHalt i.operand) = some b from hb)
  obtain ⟨x, hline, n, hcall, hn⟩ := seg_append.mp hseg
  obtain rfl : n = e := hn
  refine ⟨n, hnext, ?_⟩
  have hinside : env.jit.Inside env.amxMem [.mov edi i.operand] s := by
    rintro _ ⟨⟩
    exact ⟨fun _ _ => rfl, trivial⟩
  refine must_line (s := s) (t := { s with edi := i.operand }) hin hline rfl hinside fun hinx => ?_
  refine must_helper (s := { s with edi := i.operand, pc := x }) hinx hcall (by simp [scriptCalls])
    rfl (by simp) hroom fun a ha => ?_
  have hpush : bytes (s.esp - 4) 4 ⊆ env.amxMem := by
    refine Set.Subset.trans (bytes_below (i := 4) (le_refl 4) ?_) hroom
    unfold need
    omega
  have hframe : InFrame env u (env.mode u) { s with
      edi := i.operand, esp := s.esp - 4, mem := s.mem.write32 (s.esp - 4) n, pc := a } :=
    hs.amxWork hu (eqOn_write n (Set.disjoint_compl_right_iff_subset.mpr hpush))
      rfl rfl rfl rfl rfl rfl rfl
  have hleft := called_left (X := X) (e := .halt i.operand n) s.flags hu hframe ha hroom rfl rfl rfl
  exact hleft.must

/-- what is left of the script is its point -/
theorem left_holds {e : Ending} (hu : Entry env u) (hv : Left env u e s v)
    (hret : Disjoint (retCell u) env.amxMem) (hbase : dataBase v.vars = dataBase u.vars)
    (hesp : (e.machine (u.esp - (env.mode u).depth) s).esp = p.stk + dataBase u.vars)
    (hmem : p.mem = s.mem) : Set.EqOn v.mem p.mem (p.kept env (dataBase v.vars)) := by
  rw [hbase, hmem]
  refine hv.mem.mono fun a ha => ?_
  rintro ((h | h) | h)
  · rw [hesp] at h
    exact ha.2 h
  · obtain ⟨h1, h2⟩ := hu.room
    exact Set.disjoint_left.mp env.stack_sep ha.1 (below_bytes h1 h2 h)
  · exact Set.disjoint_left.mp hret h ha.1

/-- `HALT` with `AMX_ERR_SLEEP` -/
theorem halt_holds (hu : Entry env u) (hsleep : env.jit.compiler.enableSleep = true)
    (hret : Disjoint (retCell u) env.amxMem) (hs : InFrame env u (env.mode u) t)
    (hj : j ∈ env.jit.instrs) (hproc : j.opcode ≠ .proc) (hat : env.jit.At j ret)
    (hbase : dataBase v.vars = dataBase u.vars) (hv : Left env u (.halt AMX_ERR_SLEEP ret) t v) :
    v.eax = AMX_ERR_SLEEP ∧ Holds env (pointOf j t.eax t t) v := by
  have hamx := hv.amx
  have heax := hv.eax
  have hend (q : Word) : (Ending.halt AMX_ERR_SLEEP ret).amx env.jit q t =
      { abortAmx AMX_ERR_SLEEP t with
        cip := getANXAddressByJITInstrPtr env.jit.instrTable ret
        resetStk := t.vars.rib.resetStk, resetHea := t.vars.rib.resetHea } :=
    if_pos ⟨hsleep, rfl⟩
  rw [hend] at hamx heax
  have hmem : Set.EqOn v.mem t.mem ((pointOf j t.eax t t).kept env (dataBase v.vars)) := by
    refine left_holds hu hv hret hbase ?_ rfl
    show t.esp = t.esp - t.ebx + dataBase u.vars
    rw [hs.ebx, BitVec.sub_add_cancel]
  refine ⟨heax, ?_, ?_, ?_, ?_, ?_, ?_, ?_, ?_, hmem⟩
  · rw [hamx]
    exact resume_ptr hj hproc hat
  all_goals
    rw [hamx]
    rfl

/-- a callee that puts the script to sleep -/
theorem callee_holds {f : Callee} {c : Machine} {w a : Word}
    (hX : ∀ u v, Entry env u → X u v → Returned env u v) (hu : Entry env u)
    (hret : Disjoint (retCell u) env.amxMem) (hs : InFrame env u (env.mode u) s)
    (hc : Entered env u (env.mode u) f (requested s w ret a) c) (ht : Step env X c t)
    (hsl : env.jit.HaltSleeps (f.resumed (u.esp - (env.mode u).depth) t))
    (herr : t.vars.amx.error = AMX_ERR_SLEEP) (hcip : t.vars.amx.cip = c.vars.amx.cip)
    (hfrm : t.vars.amx.frm = c.vars.amx.frm) (hstk : t.vars.amx.stk = c.vars.amx.stk)
    (hj : j ∈ env.jit.instrs) (hproc : j.opcode ≠ .proc) (hat : env.jit.At j ret)
    (hbase : dataBase v.vars = dataBase u.vars) (hv : Left env u (.callee f) t v) :
    v.eax = AMX_ERR_SLEEP ∧ Holds env (pointOf j (f.pri t) s t) v := by
  obtain ⟨-, -, -, -, -, hpushed⟩ := hc.calling.behind hu hX ht
  have hesp : t.mem.read32 (u.esp - (env.mode u).depth - 4) = s.esp := by
    rw [read_pushed hu _ hpushed (by decide), hc.stk, sub_eight]
  have halt : t.mem.read32 (u.esp - (env.mode u).depth - 12) = s.ecx := by
    rw [read_pushed hu _ hpushed (by decide), hc.alt]
    rfl
  -- what the helper has saved before the call
  have hsaved : c.vars.amx = env.jit.sysreqAmx (requested s w ret a) := by
    rw [hc.vars]
    rfl
  have hamx := hv.amx
  have heax := hv.eax
  rw [Ending.amx_sleep hsl] at hamx heax
  have hmem : Set.EqOn v.mem t.mem ((pointOf j (f.pri t) s t).kept env (dataBase v.vars)) := by
    refine left_holds hu hv hret hbase ?_ rfl
    show t.mem.read32 _ = s.esp - s.ebx + dataBase u.vars
    rw [hesp, hs.ebx, BitVec.sub_add_cancel]
  refine ⟨heax.trans herr, ?_, ?_, ?_, ?_, ?_, ?_, ?_, ?_, hmem⟩
  · rw [hamx]
    show _ = some (getJITInstrPtr env.jit.instrTable t.vars.amx.cip)
    have htop : (requested s w ret a).top = ret := read32_write32_self _ _ _
    have hsave : (env.jit.sysreqAmx (requested s w ret a)).cip =
        getANXAddressByJITInstrPtr env.jit.instrTable (requested s w ret a).top := if_pos hsl.1
    rw [hcip, hsaved, hsave, htop]
    exact resume_ptr hj hproc hat
  · rw [hamx]
    rfl
  · rw [hamx]
    exact halt
  · rw [hamx]
    show t.vars.amx.frm = _
    rw [hfrm, hsaved]
    rfl
  · rw [hamx]
    show t.vars.amx.stk = _
    rw [hstk, hsaved]
    show (requested s w ret a).esp + 8 - s.ebx = _
    rw [sub_eight]
    rfl
  · rw [hamx]
    rfl
  · rw [hamx]
    rfl
  · rw [hamx]
    rfl

/-- **A script that is put to sleep leaves its point** in the AMX. -/
theorem must_suspend (hX : ∀ u v, Entry env u → X u v → Returned env u v) (hu : Entry env u)
    (hsleep : env.jit.compiler.enableSleep = true) (hret : Disjoint (retCell u) env.amxMem)
    (h : Suspends env (Step env X) u p t) :
    Must (Step env X) (fun v => v.pc = u.top ∧ v.eax = AMX_ERR_SLEEP ∧
      dataBase v.vars = dataBase u.vars ∧ Holds env p v) t := by
  cases h with
  | @halt _ i j hr hi hop herr hpc hj hnext hproc hroom =>
    have hs := spot_script hX hu hr (env.jit.inScript_native hpc)
    obtain ⟨ret, hat, hmust⟩ := must_halt (X := X) hu hs hi hop hpc hroom
    rw [herr] at hmust
    refine hmust.reached.imp fun v hv => ?_
    obtain ⟨hv, hrv⟩ := hv
    have hbase := (exec_returned hX hu ⟨hr.trans hrv, hv.pc⟩).base
    obtain ⟨heax, hholds⟩ := halt_holds hu hsleep hret hs hj hproc (hat j hj hnext) hbase hv
    exact ⟨hv.pc, heax, hbase, hholds⟩
  | @callee f s c _ i j hr hi hop hintr hpc hc ht herr hfe hcip hfrm hstk hres hj hnext hproc =>
    obtain ⟨hs, w, ret, a, hentered, -, -, hat⟩ := invokes_entered hX hu hr hi hop hintr hpc hc
    have hsl : env.jit.HaltSleeps (f.resumed (u.esp - (env.mode u).depth) t) :=
      ⟨hsleep, hfe.trans herr⟩
    have hpri : f.pri t = f.result c t := by
      cases f with
      | callback => exact hres.resolve_left (by simp)
      | native => rfl
    have hleft := sleep_left hX hu hentered.calling ht hsl
    have hmust : Must (Step env X) (Left env u (.callee f) t) t :=
      hleft.must
    refine hmust.reached.imp fun v hv => ?_
    obtain ⟨hv, hrv⟩ := hv
    have hrun := ((hr.trans hc.reach).tail ht).trans hrv
    have hbase := (exec_returned hX hu ⟨hrun, hv.pc⟩).base
    obtain ⟨heax, hholds⟩ := callee_holds hX hu hret hs hentered ht hsl herr hcip hfrm hstk hj
      hproc (hat j hj hnext) hbase hv
    rw [hpri] at hholds
    exact ⟨hv.pc, heax, hbase, hholds⟩

/-! ## going on -/

/-- **A call of `Exec` that continues** brings the script to the point that the AMX holds. -/
theorem must_resume (hu : Entry env u) (hv : Holds env p v) (hw : Wakes env v u) :
    Must (Step env X) (Stands env u p) u := by
  have hbase : dataBase u.vars = dataBase v.vars := by
    unfold dataBase
    rw [hw.amx, hw.hdr]
  have hgo : Until (Step env X) env.Plain (Continued env u) u := by
    apply until_exec (env.drives X) hu
    · intro error t hcheck
      rw [hw.check] at hcheck
      exact absurd hcheck (by simp)
    · exact fun _ hno => absurd hw.continues hno
    · exact fun _ hno => absurd hw.continues hno
    · exact fun _ _ t ht => .now ht
  apply (until_df hgo).mono (fun _ _ => trivial)
  rintro t ⟨ht, hdf⟩
  have hframe := ht.inFrame
  rw [← mode_continue ⟨hw.check, hw.continues⟩] at hframe
  refine ⟨hframe, ?_, ?_, ?_, ?_, ?_, ?_, ?_, ?_, ?_, ?_, hdf, ?_⟩
  · rw [hv.cip, ht.pc, hw.amx]
  · rw [ht.eax, hw.amx, hv.pri]
  · rw [ht.ecx, hw.amx, hv.alt]
  · rw [ht.ebp, hw.amx, hv.frm]
  · rw [ht.esp, hw.amx, hv.stk]
  · rw [ht.vars]
    show u.vars.amx.hea = _
    rw [hw.amx, hv.hea]
  · rw [ht.vars]
    show u.vars.amx.resetStk = _
    rw [hw.amx, hv.resetStk]
  · rw [ht.vars]
    show u.vars.amx.resetHea = _
    rw [hw.amx, hv.resetHea]
  · rw [ht.vars]
    rfl
  · rw [ht.vars]
    rfl
  · intro a ha
    have hmem := hv.mem
    rw [← hbase] at hmem
    rw [← hmem ha, ← hw.mem ha.1]
    refine ht.mem ?_
    rintro (h | h)
    · obtain ⟨h1, h2⟩ := hu.room
      exact Set.disjoint_left.mp env.stack_sep ha.1 (below_bytes h1 h2 h)
    · rw [hw.amx, hv.stk] at h
      exact ha.2 h

/-! ## the end -/

/-- `Exec`, entered in `u`, has returned to its caller with the error, and with PRI of `s`. -/
structure Delivers (env : Env) (u s : Machine) (error : Word) (w : Machine) : Prop where
  returned : Returned env u w
  error : w.eax = error
  result : u.mem.read32 (u.esp + 8) ≠ 0 → w.mem.read32 (u.mem.read32 (u.esp + 8)) = s.eax

/-- the function returns through the call of `Exec` that runs it -/
theorem must_finish (hX : ∀ u v, Entry env u → X u v → Returned env u v) (hu : Entry env u)
    (ht : Ended env (Step env X) u .return' t) :
    Must (Step env X) (Delivers env u t t.vars.amx.error) t := by
  have hreach := ht.reach
  cases ht with
  | @return' s _ hr hin hstep haddr =>
    have hframe := ((spot_script hX hu hr hin).script hu hin hstep).1
    have hleft : Must (Step env X) (Left env u .return' t) t :=
      (return_left (X := X) hu hframe haddr).must
    refine hleft.reached.imp fun w hw => ?_
    obtain ⟨hw, hrw⟩ := hw
    refine ⟨exec_returned hX hu ⟨hreach.trans hrw, hw.pc⟩, ?_, hw.retval⟩
    rw [hw.eax]
    show (returnAmx env.jit.compiler t).error = _
    unfold returnAmx
    split <;> rfl

/-- `HALT` with another error than `AMX_ERR_SLEEP` -/
theorem must_abort {error : Word} (hX : ∀ u v, Entry env u → X u v → Returned env u v)
    (hu : Entry env u) (ht : Ended env (Step env X) u (.halt error ret) t)
    (herr : error ≠ AMX_ERR_SLEEP) (hroom : env.AmxRoom t.esp) :
    Must (Step env X) (Delivers env u t error) t := by
  cases ht with
  | @halt _ i _ hr hi hop hpc hret =>
    have hs := spot_script hX hu hr (env.jit.inScript_native hpc)
    obtain ⟨ret', -, hleft⟩ := must_halt (X := X) hu hs hi hop hpc hroom
    have hno : ¬ (env.jit.compiler.enableSleep = true ∧ i.operand = AMX_ERR_SLEEP) :=
      fun h => herr h.2
    refine hleft.reached.imp fun w hw => ?_
    obtain ⟨hw, hrw⟩ := hw
    refine ⟨exec_returned hX hu ⟨hr.trans hrw, hw.pc⟩, ?_, fun hcell => ?_⟩
    · rw [hw.eax]
      exact congrArg Amx.error (if_neg hno)
    · rw [hw.retval hcell]
      exact if_neg hno

/-- **Sleep and continue.**  `Exec` returns `AMX_ERR_SLEEP`; a later call that continues, with the AMX
as it was left, brings the script to the next instruction with its registers and its memory; when
the function returns then, or halts with another error, its error and its result reach the caller of
the later call.  The first call may itself be one that continues. -/
theorem sleep_continue (env : Env) (C : Machine → Prop) (n : Nat)
    (hsleep : env.jit.compiler.enableSleep = true) (u : Machine) (p : Point) (s : Machine)
    (hu : Entry env u) (hret : Disjoint (retCell u) env.amxMem)
    (hs : Suspends env (level env C n) u p s) :
    Must (level env C n) (fun v => Returned env u v ∧ v.eax = AMX_ERR_SLEEP ∧
      ∀ u', Entry env u' → Wakes env v u' →
        Must (level env C n) (Stands env u' p) u' ∧
        (∀ t, Ended env (level env C n) u' .return' t →
          Must (level env C n) (Delivers env u' t t.vars.amx.error) t) ∧
        ∀ error ret t, Ended env (level env C n) u' (.halt error ret) t →
          error ≠ AMX_ERR_SLEEP → env.AmxRoom t.esp →
          Must (level env C n) (Delivers env u' t error) t) s := by
  obtain ⟨X, hX, hreturns⟩ := @level_calls env C n
  rw [hX] at hs ⊢
  have hreach : Relation.ReflTransGen (Step env X) u s := by
    cases hs with
    | halt hr => exact hr
    | callee f hr _ _ _ _ hc ht => exact (hr.trans hc.reach).tail ht
  refine (must_suspend hreturns hu hsleep hret hs).reached.imp fun v hv => ?_
  obtain ⟨⟨hpc, heax, -, hholds⟩, hrv⟩ := hv
  refine ⟨exec_returned hreturns hu ⟨hreach.trans hrv, hpc⟩, heax, fun u' hu' hw => ?_⟩
  refine ⟨must_resume hu' hholds hw, fun t ht => must_finish hreturns hu' ht, ?_⟩
  exact fun error ret t ht herr hroom => must_abort hreturns hu' ht herr hroom

/-- The sample sleeps in front of `HALT 12`, with PRI = 77, and is continued behind it. -/
theorem sleep_continue_sample :
    ∃ p s, p.next = ⟨20, .sysreqPri, []⟩ ∧ p.pri = 77 ∧
      Must (level sampleEnv (fun _ => True) 1) (fun v => v.eax = AMX_ERR_SLEEP ∧
        ∀ u', Entry sampleEnv u' → Wakes sampleEnv v u' →
          Must (level sampleEnv (fun _ => True) 1) (Stands sampleEnv u' p) u') s := by
  have hu : Entry sampleEnv (sampleEntry AMX_EXEC_CONT 0x300000 asleep) :=
    sampleEntry_entry (.inr rfl) rfl rfl rfl
  have hmem {i : Instruction} (hi : i ∈ [(⟨12, .halt, [12]⟩ : Instruction), ⟨20, .sysreqPri, []⟩]) :
      i ∈ sampleEnv.jit.instrs := by
    show i ∈ sampleJit.instrs
    rw [sampleJit_instrs]
    simp only [List.mem_cons, List.not_mem_nil, or_false] at hi
    rcases hi with rfl | rfl <;> simp
  have hp : sampleJit.native 12 = some 33201 := by decide +kernel
  obtain ⟨X, hX, -⟩ := @level_calls sampleEnv (fun _ => True) 1
  obtain ⟨t, hr, ht⟩ := continue_run (X := X) hu (by decide) ⟨rfl, by decide⟩
  have hroom : sampleEnv.AmxRoom t.esp := by
    rw [ht.esp]
    exact below_bytes (by decide) (by decide)
  have hpc : sampleJit.native 12 = some t.pc := by
    rw [ht.pc, hp]
    decide +kernel
  have hret : Disjoint (retCell (sampleEntry AMX_EXEC_CONT 0x300000 asleep)) sampleEnv.amxMem := by
    have hcell : (sampleEntry AMX_EXEC_CONT 0x300000 asleep).mem.read32 0x180008 = 0x300000 :=
      read32_write32_self _ _ _
    unfold retCell
    rw [show (sampleEntry AMX_EXEC_CONT 0x300000 asleep).esp + 8 = 0x180008 by decide, hcell,
      if_neg (by decide)]
    exact bytes_disjoint (by decide) (by decide)
  have hs : Suspends sampleEnv (level sampleEnv (fun _ => True) 1)
      (sampleEntry AMX_EXEC_CONT 0x300000 asleep) (pointOf ⟨20, .sysreqPri, []⟩ t.eax t t) t := by
    rw [hX]
    exact .halt hr (hmem (i := ⟨12, .halt, [12]⟩) (by simp)) rfl rfl hpc (hmem (by simp)) rfl
      (by simp) hroom
  refine ⟨pointOf ⟨20, .sysreqPri, []⟩ t.eax t t, t, rfl, ht.eax, ?_⟩
  refine (sleep_continue sampleEnv (fun _ => True) 1 rfl _ _ t hu hret hs).imp fun v hv => ?_
  exact ⟨hv.2.1, fun u' hu' hw => (hv.2.2 u' hu' hw).1⟩

end Env

end AmxJit
