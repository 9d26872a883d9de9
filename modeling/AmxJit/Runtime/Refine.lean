import AmxJit.Compiler.Inline
import AmxJit.Runtime.Gap
import AmxJit.Runtime.Leave
import AmxJit.Runtime.Session

/-!
# The compiled code runs the abstract machine

* `Runs`            the script, in a call of `Exec`, is at a configuration of the abstract machine;
* `Keeps`           a host function has kept its contract; `Spared`: the helper finds what it needs
                    after its return;
* `Faulty`          the returns of host functions of which one of the two does not hold;
* `Finished`        the call has returned with what the function is to come to;
* `Sleeps`          it has returned because the script sleeps in a configuration (`Reflects`);
* `unless_conclude` a script that is at a configuration comes to one of the two.
-/

set_option linter.constructorNameAsVariable false

namespace AmxJit
open X86 Trans Reg

namespace Env

/-- the surroundings of the abstract machine for a call of `Exec` that is entered in `u` -/
noncomputable def setting (env : Env) (u : Machine) (host : Host) : Setting where
  amx := env.jit.amx
  instrs := env.jit.instrs
  sem := scriptSem (amxConst u.vars) env.jit.amx
  area := {o | dataBase u.vars + o ∈ env.amxMem}
  need := env.need
  pointer := getJITInstrPtr env.jit.instrTable
  back := (env.jit.image.addr .callReturn).getD 0
  sleeps := env.jit.compiler.enableSleep
  callee := env.jit.compiler.callee env.jit.amx
  host := host

/-- The script, run by the call of `Exec` that was entered in `u`, is at the configuration `c`, where
the cells in `E` are stale. -/
structure Runs (env : Env) (R : Machine → Machine → Prop) (u : Machine) (c : Config) (E : Set Word)
    (s : Machine) : Prop where
  reach : Relation.ReflTransGen R u s
  rel : Rel env.jit (amxConst u.vars) (dataBase u.vars) E c s
  error : s.vars.amx.error = AMX_ERR_NONE
  covers : c.st.gap ∪ {o | dataBase u.vars + o ∈ env.amxMem}ᶜ ⊆ E

/-- what a host function that is called in the state `m` is called with -/
def requestOf (u m : Machine) : Request where
  frm := m.vars.amx.frm
  stk := m.vars.amx.stk
  hea := m.vars.amx.hea
  mem := m.mem.shift (dataBase u.vars)

/-- The host function `f`, called in the state `m`, has returned in the state `t` with the answer `r`: the
callback returns the error that is in `amx->error`, and the result is where the caller wants it. -/
structure Answered (env : Env) (u : Machine) (f : Callee) (r : Answer) (m t : Machine) : Prop where
  error : f.error t = r.error
  amxError : t.vars.amx.error = r.error
  pri : f.result m t = r.pri
  hea : t.vars.amx.hea = r.hea
  const : amxConst t.vars = amxConst u.vars
  df : t.flags.df = false
  mem : ∀ o, dataBase u.vars + o ∈ env.amxMem → t.mem (dataBase u.vars + o) = r.mem o

/-- The host function `f`, called in the state `m`, has returned in the state `t` with an answer that it
may give. -/
def Keeps (env : Env) (u : Machine) (host : Host) (f : Callee) (m t : Machine) : Prop :=
  ∃ r, host f (f.which m) (requestOf u m) r ∧ Answered env u f r m t

/-- The helper finds the result through ECX, and, if the script is to sleep, the registers that it has
saved. -/
structure Spared (env : Env) (f : Callee) (m t : Machine) : Prop where
  pri : f.pri t = f.result m t
  asleep : env.jit.compiler.enableSleep = true → t.vars.amx.error = AMX_ERR_SLEEP →
    t.vars.amx.cip = m.vars.amx.cip ∧ t.vars.amx.frm = m.vars.amx.frm ∧
    t.vars.amx.stk = m.vars.amx.stk

/-- In the step from `m` to `t` a host function has not kept its contract, or the helper does not find
what it needs. -/
def Faulty (env : Env) (u : Machine) (host : Host) (m t : Machine) : Prop :=
  ∃ f, env.CalleePc m.pc f ∧ (¬ Keeps env u host f m t ∨ ¬ Spared env f m t)

/-- The call of `Exec` has returned with what the function is to come to: the error in `eax`, the
result behind `retval`, HEA and the memory, but for the cells that nothing is said about. -/
structure Finished (env : Env) (u : Machine) (post : Post) (v : Machine) : Prop where
  returned : Returned env u v
  outcome : ∃ a E, post v.eax a E ∧
    (u.mem.read32 (u.esp + 8) ≠ 0 → v.mem.read32 (u.mem.read32 (u.esp + 8)) = a.pri) ∧
    v.vars.amx.hea = a.hea ∧ ∀ o, o ∉ E → v.mem (dataBase u.vars + o) = a.mem o

/-- The point `p` shows the configuration `c`, where the cells in `E` are stale. -/
structure Reflects (jit : Jit) (d : Word) (E : Set Word) (c : Config) (p : Point) : Prop where
  next : p.next ∈ jit.instrs
  cip : p.next.address = c.cip
  pri : p.pri = c.st.pri
  alt : p.alt = c.st.alt
  frm : p.frm = c.st.frm
  stk : p.stk = c.st.stk
  hea : p.hea = c.st.hea
  mem : ∀ o, o ∉ cellsOf c.live ∪ E → p.mem (d + o) = c.st.mem o
  live : ∀ q ∈ c.live, ∀ i ∈ jit.instrs, i.address = c.st.cell q → jit.At i (p.mem.read32 (d + q))

/-- The call of `Exec` has returned because the script sleeps, in a configuration with `slept`. -/
structure Sleeps (env : Env) (u : Machine) (host : Host) (slept : Config → Set Word → Prop)
    (v : Machine) : Prop where
  returned : Returned env u v
  eax : v.eax = AMX_ERR_SLEEP
  const : amxConst v.vars = amxConst u.vars
  holds : ∃ c E p, slept c E ∧ (setting env u host).Safe c ∧ (setting env u host).Covers c E ∧
    Holds env p v ∧ Reflects env.jit (dataBase u.vars) E c p

/-- what a call of `Exec` may come to -/
def Comes (env : Env) (u : Machine) (host : Host) (post : Post)
    (slept : Config → Set Word → Prop) (v : Machine) : Prop :=
  Finished env u post v ∨ Sleeps env u host slept v

/-- The natives that the code calls directly are natives of the process. -/
def Linked (env : Env) : Prop :=
  ∀ i ∈ env.jit.instrs, ∀ o : Opnd Cell,
    compileInstr env.jit.compiler env.jit.amx i = some (requestCode .native o) →
    ∃ w ∈ env.natives, o = .imm w

section
variable {env : Env} {X : Machine → Machine → Prop} {u s t v m : Machine} {c c' : Config}
  {E E' : Set Word} {i j : Instruction} {f : Callee}
  {host : Host} {post : Post} {slept : Config → Set Word → Prop} {r : Answer}

/-! ## the free gap -/

/-- what the runtime may write to lies in the free gap -/
theorem safe_below (hc : (setting env u host).Safe c) {x : Word}
    (hx : x ∈ below (dataBase u.vars + c.st.stk) env.need) : x - dataBase u.vars ∈ c.st.gap := by
  have hlast : dataBase u.vars + c.st.stk - (dataBase u.vars + c.st.hea) = c.st.stk - c.st.hea :=
    add_sub_add _ _ _
  have hroom : env.need ≤ (dataBase u.vars + c.st.stk - (dataBase u.vars + c.st.hea)).toNat := by
    rw [hlast]
    exact hc.room
  have h := below_bytes hroom (le_of_eq (congrArg BitVec.toNat hlast)) hx
  show (x - dataBase u.vars - c.st.hea).toNat < _
  rw [sub_sub]
  exact h

theorem safe_amxRoom (hc : (setting env u host).Safe c)
    (hesp : s.esp = dataBase u.vars + c.st.stk) : env.AmxRoom s.esp := by
  rw [hesp]
  intro x hx
  have h : dataBase u.vars + (x - dataBase u.vars) ∈ env.amxMem := hc.gap (safe_below hc hx)
  rwa [add_comm, BitVec.sub_add_cancel] at h

/-- memory outside the gap is not where the runtime writes -/
theorem notMem_below (hc : (setting env u host).Safe c) {o : Word} (ho : o ∉ c.st.gap) :
    dataBase u.vars + o ∉ below (dataBase u.vars + c.st.stk) env.need := by
  intro h
  have h' := safe_below hc h
  rw [add_comm, BitVec.add_sub_cancel] at h'
  exact ho h'

theorem live_notMem (hc : (setting env u host).Safe c) {o : Word} (ho : o ∈ cellsOf c.live) :
    o ∉ c.st.gap := fun h => Set.disjoint_left.mp hc.live ho h

/-- a live return address, in memory that is as it was on its cell -/
theorem live_read {k k' : Mem} {d : Word} {q : Word} {live : List Word} (hq : q ∈ live)
    (hm : ∀ o ∈ cellsOf live, k' (d + o) = k (d + o)) : k'.read32 (d + q) = k.read32 (d + q) := by
  rw [← shift_read32, ← shift_read32]
  exact read32_congr fun o ho => hm o (mem_cellsOf hq ho)

/-! ## the moves -/

theorem Runs.at_pc (hs : Runs env (Step env X) u c E s) (hi : (setting env u host).At i c) :
    env.jit.At i s.pc := by
  obtain ⟨j, hj, hja, hat⟩ := hs.rel.pc
  obtain ⟨hi, ha⟩ := hi
  obtain rfl := env.jit.swept.address_inj hi hj (ha.trans hja.symm)
  exact hat

theorem Runs.frame (hX : ∀ u v, Entry env u → X u v → Returned env u v) (hu : Entry env u)
    (hs : Runs env (Step env X) u c E s) : InFrame env u (env.mode u) s := by
  obtain ⟨j, hj, hja, hat⟩ := hs.rel.pc
  exact spot_script hX hu hs.reach (env.jit.inScript_at hat)

/-- steps of the script -/
theorem runs_of_within (hs : Runs env (Step env X) u c E s)
    (h : Must (env.jit.Within env.jit.InScript env.amxMem)
      (Rel env.jit (amxConst u.vars) (dataBase u.vars) E' c') s)
    (hcov : c'.st.gap ∪ {o | dataBase u.vars + o ∈ env.amxMem}ᶜ ⊆ E') :
    Must (Step env X) (Runs env (Step env X) u c' E') s := by
  have herror {a b : Machine}
      (hr : Relation.ReflTransGen (env.jit.Within env.jit.InScript env.amxMem) a b) :
      b.vars.amx.error = a.vars.amx.error := by
    induction hr with
    | refl => rfl
    | tail _ hab ih =>
      obtain ⟨i, n, hf, hstep⟩ := hab.step
      obtain ⟨-, hq⟩ := step_quiet (env.jit.fetch_calm hab.source hf) hstep
      have hamx := congrArg (fun q => q.2.2.2.error) hq
      exact hamx.trans ih
  have hgo : Must (env.jit.Within env.jit.InScript env.amxMem)
      (fun t => Rel env.jit (amxConst u.vars) (dataBase u.vars) E' c' t ∧
        t.vars.amx.error = AMX_ERR_NONE) s := by
    apply h.reached.imp
    rintro t ⟨ht, hr⟩
    exact ⟨ht, (herror hr).trans hs.error⟩
  apply (must_inside hgo).reached.imp
  rintro t ⟨⟨ht, herr⟩, hr⟩
  exact ⟨hs.reach.trans hr, ht, herr, hcov⟩

/-- the opcodes that only the script works on -/
theorem runs_step (hdebug : env.jit.compiler.debugFlags = 0) (hs : Runs env (Step env X) u c E s)
    (hstep : AmxJit.Step env.jit.amx env.jit.instrs (scriptSem (amxConst u.vars) env.jit.amx) c c')
    (hv : Valid env.jit.instrs c) (hv' : Valid env.jit.instrs c')
    (htr : Tracks env.jit.amx env.jit.instrs (scriptSem (amxConst u.vars) env.jit.amx) c E c' E')
    (hconf : (setting env u host).Confined c E)
    (hgap : c.st.gap ∪ c'.st.gap ⊆ {o | dataBase u.vars + o ∈ env.amxMem})
    (hcov : c'.st.gap ∪ {o | dataBase u.vars + o ∈ env.amxMem}ᶜ ⊆ E') :
    Must (Step env X) (Runs env (Step env X) u c' E') s := by
  have hT := closed_inScript env.jit
  apply runs_of_within hs ?_ hcov
  cases hstep with
  | data hi ha hsem hlive =>
    have hW (o : Word) (ho : o ∈ c.st.gap) : dataBase u.vars + o ∈ env.amxMem := hgap (.inl ho)
    apply script_within hT hW hi ha hsem hlive hv hv' htr ?_ hs.rel
    intro w w' hw hww o ho
    exact hconf _ ⟨hi, ha⟩ w w' hw hww ho
  | control hi ha hctl hread =>
    have hW (o : Word) (ho : o ∈ c.st.gap ∪ c'.st.gap) : dataBase u.vars + o ∈ env.amxMem := hgap ho
    exact control_within hT hW hdebug hi ha hctl hread hv hv' htr hs.rel

/-- PRI, the x87 unit and the cells below STK aside, nothing is changed -/
structure Crossed (env : Env) (s t : Machine) : Prop where
  ecx : t.ecx = s.ecx
  ebx : t.ebx = s.ebx
  ebp : t.ebp = s.ebp
  esp : t.esp = s.esp
  df : t.flags.df = s.flags.df
  vars : ∃ x, t.vars = { s.vars with fpuState := x }
  mem : Set.EqOn t.mem s.mem (below s.esp env.need)ᶜ

theorem Passed.crossed (h : Passed env s t) : Crossed env s t :=
  ⟨h.ecx, h.ebx, h.ebp, h.esp, h.df, ⟨s.vars.fpuState, h.vars⟩, h.mem⟩

theorem Runs.crossed (hs : Runs env (Step env X) u c E s) (hc : (setting env u host).Safe c)
    (ht : Crossed env s t) (hr : Relation.ReflTransGen (Step env X) s t)
    (hj : j ∈ env.jit.instrs) (hat : env.jit.At j t.pc) :
    Runs env (Step env X) u ⟨j.address, { c.st with pri := t.eax }, c.live⟩ E t := by
  have hrel := hs.rel
  obtain ⟨x, hvars⟩ := ht.vars
  have hmem (o : Word) (ho : o ∉ c.st.gap) :
      t.mem (dataBase u.vars + o) = s.mem (dataBase u.vars + o) := by
    apply ht.mem
    rw [hrel.esp]
    exact notMem_below hc ho
  refine ⟨hs.reach.trans hr, ⟨⟨⟨rfl, ?_, ?_, ?_, ?_, ?_⟩, ?_, ?_, ?_, ?_, ?_⟩, j, hj, rfl, hat⟩, ?_,
    hs.covers⟩
  · exact ht.ecx.trans hrel.ecx
  · exact ht.ebp.trans hrel.ebp
  · exact ht.esp.trans hrel.esp
  · exact ht.ebx.trans hrel.ebx
  · rw [hvars]
    exact hrel.hea
  · intro o ho
    rw [hmem o fun h => ho (.inr (hs.covers (.inl h)))]
    exact hrel.mem o ho
  · intro q hq k hk hka
    rw [live_read hq fun o ho => hmem o (live_notMem hc ho)]
    exact hrel.live q hq k hk hka
  · rw [hvars]
    exact hrel.amx
  · rw [hvars]
    exact hrel.const
  · exact ht.df.trans hrel.df
  · rw [hvars]
    exact hs.error

/-- `JUMP.pri` and `SCTRL 6` -/
theorem runs_jump (hs : Runs env (Step env X) u c E s) (hi : (setting env u host).At i c)
    (hop : i.JumpsToPri) (hc : (setting env u host).Safe c) (hj : j ∈ env.jit.instrs)
    (hto : j.address = c.st.pri ∨ j.address = i.next ∧ ¬ (setting env u host).Decoded c.st.pri) :
    Must (Step env X) (Runs env (Step env X) u { c with cip := j.address } E) s := by
  obtain ⟨e, hnext, -, hmust⟩ := must_jumpPri (X := X) hi.1 hop (hs.at_pc hi)
    (safe_amxRoom hc hs.rel.esp)
  apply hmust.reached.imp
  rintro t ⟨⟨hpc, heax, hpass⟩, hr⟩
  have hat : env.jit.At j t.pc := by
    rw [hs.rel.eax] at hpc
    rcases hto with hto | ⟨hto, hno⟩
    · rw [← hto] at hpc
      have hnat := lookup_decoded env.jit hj
      have h0 : getJITInstrPtr env.jit.instrTable j.address ≠ 0 := by
        intro h0
        rw [h0] at hnat
        exact env.jit.not_inScript env.null.1 (env.jit.inScript_native hnat)
      rw [hpc, if_neg h0]
      exact Jit.at_native hnat
    · have h0 := lookup_undecoded env.jit fun k hk hka => hno ⟨k, hk, hka⟩
      rw [hpc, if_pos h0]
      exact hnext j hj hto
  have hgo := hs.crossed hc hpass.crossed hr hj hat
  rw [heax, hs.rel.eax] at hgo
  exact hgo

/-- `LCTRL 8` -/
theorem runs_lookup (hs : Runs env (Step env X) u c E s) (hi : (setting env u host).At i c)
    (hop : i.opcode = .lctrl) (h8 : i.operand = 8) (hc : (setting env u host).Safe c)
    (hdec : (setting env u host).Decoded i.next) :
    Must (Step env X) (Runs env (Step env X) u
      ⟨i.next, { c.st with pri := (setting env u host).pointer c.st.pri }, c.live⟩ E) s := by
  obtain ⟨j, hj, hja⟩ := hdec
  apply (must_lctrl (X := X) hi.1 hop h8 (hs.at_pc hi) (safe_amxRoom hc hs.rel.esp)).reached.imp
  rintro t ⟨⟨hnext, heax, hpass⟩, hr⟩
  have hgo := hs.crossed hc hpass.crossed hr hj (hnext j hj hja)
  rw [heax, hs.rel.eax, hja] at hgo
  exact hgo

/-- `SCTRL 8` -/
theorem runs_goto (hs : Runs env (Step env X) u c E s) (hi : (setting env u host).At i c)
    (hop : i.opcode = .sctrl) (h8 : i.operand = 8) (hj : j ∈ env.jit.instrs)
    (hto : (setting env u host).pointer j.address = c.st.pri) :
    Must (Step env X) (Runs env (Step env X) u { c with cip := j.address } E) s := by
  have hnat := lookup_decoded env.jit hj
  have hpri : getJITInstrPtr env.jit.instrTable j.address = s.eax := hto.trans hs.rel.eax.symm
  rw [hpri] at hnat
  apply (must_sctrl (X := X) hi.1 hop h8 (hs.at_pc hi) (env.jit.inScript_native hnat)).reached.imp
  rintro _ ⟨rfl, hr⟩
  have hrel := (hs.rel.toAgrees.flags hs.rel.df s.eax).goto (Set.Subset.refl _) hj
    (Jit.at_native hnat)
  exact ⟨hs.reach.trans hr, hrel, hs.error, hs.covers⟩

/-- a native of float.inc -/
theorem runs_float {n : FloatNative} (hs : Runs env (Step env X) u c E s)
    (hi : (setting env u host).At i c) (hn : floatNative env.jit.amx i = some n)
    (hc : (setting env u host).Safe c) (hdec : (setting env u host).Decoded i.next) :
    Must (Step env X) (fun t => ∃ v, n.MayReturn v ∧
      Runs env (Step env X) u ⟨i.next, { c.st with pri := v }, c.live⟩ E t) s := by
  obtain ⟨j, hj, hja⟩ := hdec
  obtain ⟨name, hcall, hname⟩ := floatNative_name hn
  have hproc : i.opcode ≠ .proc := by
    intro h
    unfold calledName at hcall
    rw [h] at hcall
    exact absurd hcall (by simp)
  obtain ⟨b, e, hb, hseg, hnext⟩ := Jit.code_at hi.1 ((hs.at_pc hi).native hproc)
  rw [compileInstr_intrinsic hcall (emitIntrinsic_float hname i.address) hb] at hseg
  have hcell : bytes (s.esp - 4) 4 ⊆ below s.esp env.need := by
    apply bytes_below (i := 4) (le_refl 4)
    unfold need
    omega
  have hin := env.jit.inScript_native ((hs.at_pc hi).native hproc)
  have hcode : Computes env.jit env.jit.InScript env.amxMem s (n.result s) e :=
    computes_float (closed_inScript env.jit) hin n hseg (hcell.trans (safe_amxRoom hc hs.rel.esp))
  apply (must_inside (within_df hcode)).reached.imp
  rintro t ⟨⟨⟨f, m, x, hmem, ht⟩, hdf⟩, hr⟩
  have hcross : Crossed env s t := by
    subst ht
    exact ⟨rfl, rfl, rfl, rfl, hdf, ⟨x, rfl⟩, hmem.mono (Set.compl_subset_compl.mpr hcell)⟩
  have heax : t.eax = n.result s := by rw [ht]
  have hpc : t.pc = e := by rw [ht]
  refine ⟨n.result s, mayReturn_result s n, ?_⟩
  rw [← hja, ← heax]
  apply hs.crossed hc hcross hr hj
  rw [hpc]
  exact hnext j hj hja

/-- `BOUNDS`, if PRI is within its bounds -/
theorem runs_bounds (hs : Runs env (Step env X) u c E s) (hi : (setting env u host).At i c)
    (hop : i.opcode = .bounds) (h0 : 0 ≤ c.st.pri.toInt) (hle : c.st.pri.toInt ≤ i.operand.toInt)
    (hdec : (setting env u host).Decoded i.next) :
    Must (Step env X) (Runs env (Step env X) u { c with cip := i.next } E) s := by
  obtain ⟨j, hj, hja⟩ := hdec
  have hgo : Must (Step env X) (fun t => ∃ (fl : Flags) (e : Word), fl.df = s.flags.df ∧
      env.jit.At j e ∧ t = { s with flags := fl, pc := e }) s := by
    apply must_bounds hi.1 hop ((hs.at_pc hi).native (by rw [hop]; simp))
    · intro _ _ fl e hdf hnext
      exact .now ⟨fl, e, hdf, hnext j hj hja, rfl⟩
    · intro hfail
      rw [hs.rel.eax] at hfail
      omega
  apply hgo.reached.imp
  rintro _ ⟨⟨fl, e, hdf, hat, rfl⟩, hr⟩
  have hrel := (hs.rel.toAgrees.flags (hdf.trans hs.rel.df) e).goto (Set.Subset.refl _) hj hat
  rw [hja] at hrel
  exact ⟨hs.reach.trans hr, hrel, hs.error, hs.covers⟩

/-! ## the ends -/

/-- what is left of the script is what the function comes to -/
theorem Left.finished {e : Ending} {a : AmxState} {F : Set Word} {error : Word}
    (hX : ∀ u v, Entry env u → X u v → Returned env u v) (hu : Entry env u)
    (hret : Disjoint (retCell u) env.amxMem) (hr : Relation.ReflTransGen (Step env X) u v)
    (hv : Left env u e t v) (hpost : post error a F)
    (herr : (e.amx env.jit (u.esp - (env.mode u).depth) t).error = error)
    (hpri : e.retval env.jit t = a.pri)
    (hhea : (e.amx env.jit (u.esp - (env.mode u).depth) t).hea = a.hea)
    (hmem : ∀ o, o ∉ F → dataBase u.vars + o ∈ env.amxMem ∧
      dataBase u.vars + o ∉ below (e.machine (u.esp - (env.mode u).depth) t).esp env.need ∧
      t.mem (dataBase u.vars + o) = a.mem o) : Finished env u post v := by
  refine ⟨exec_returned hX hu ⟨hr, hv.pc⟩, a, F, ?_, ?_, ?_, ?_⟩
  · rw [hv.eax, herr]
    exact hpost
  · intro hne
    rw [hv.retval hne, hpri]
  · rw [hv.amx]
    exact hhea
  · intro o ho
    obtain ⟨hin, hout, hval⟩ := hmem o ho
    rw [← hval]
    apply hv.mem
    rintro ((h | h) | h)
    · exact hout h
    · exact hu.stack_below h hin
    · exact Set.disjoint_left.mp hret h hin

/-- memory at a configuration that the runtime does not write to -/
theorem Runs.kept (hs : Runs env (Step env X) u c E s) (hc : (setting env u host).Safe c) {o : Word}
    (ho : o ∉ cellsOf c.live ∪ E) : dataBase u.vars + o ∈ env.amxMem ∧
      dataBase u.vars + o ∉ below s.esp env.need ∧ s.mem (dataBase u.vars + o) = c.st.mem o := by
  refine ⟨?_, ?_, hs.rel.mem o ho⟩
  · by_contra h
    exact ho (.inr (hs.covers (.inr h)))
  · rw [hs.rel.esp]
    exact notMem_below hc fun h => ho (.inr (hs.covers (.inl h)))

/-- `HALT` -/
theorem finish_halt (hX : ∀ u v, Entry env u → X u v → Returned env u v) (hu : Entry env u)
    (hret : Disjoint (retCell u) env.amxMem) (hs : Runs env (Step env X) u c E s)
    (hi : (setting env u host).At i c) (hop : i.opcode = .halt)
    (hno : ¬ (setting env u host).Sleeping i.operand) (hc : (setting env u host).Safe c)
    (hpost : post i.operand c.st (cellsOf c.live ∪ E)) :
    Must (Step env X) (Finished env u post) s := by
  obtain ⟨ret, -, hmust⟩ := must_halt (X := X) hu (hs.frame hX hu) hi.1 hop
    ((hs.at_pc hi).native (by rw [hop]; simp)) (safe_amxRoom hc hs.rel.esp)
  have hamx (p : Word) : (Ending.halt i.operand ret).amx env.jit p s = abortAmx i.operand s :=
    if_neg hno
  have hretval : (Ending.halt i.operand ret).retval env.jit s = s.eax := if_neg hno
  apply hmust.reached.imp
  rintro v ⟨hv, hr⟩
  apply hv.finished hX hu hret (hs.reach.trans hr) hpost
  · rw [hamx]
    rfl
  · rw [hretval]
    exact hs.rel.eax
  · rw [hamx]
    exact hs.rel.hea
  · exact fun o ho => hs.kept hc ho

/-- `BOUNDS`, if PRI is outside its bounds -/
theorem finish_bounds (hX : ∀ u v, Entry env u → X u v → Returned env u v) (hu : Entry env u)
    (hret : Disjoint (retCell u) env.amxMem) (hs : Runs env (Step env X) u c E s)
    (hi : (setting env u host).At i c) (hop : i.opcode = .bounds)
    (hfail : i.operand.toInt < c.st.pri.toInt ∨ c.st.pri.toInt < 0)
    (hc : (setting env u host).Safe c) (hpost : post AMX_ERR_BOUNDS c.st (cellsOf c.live ∪ E)) :
    Must (Step env X) (Finished env u post) s := by
  have hroom := safe_amxRoom hc hs.rel.esp
  have hframe := hs.frame hX hu
  have hno : ¬ (env.jit.compiler.enableSleep = true ∧ AMX_ERR_BOUNDS = AMX_ERR_SLEEP) :=
    fun h => absurd h.2 (by decide)
  have hmust : Must (Step env X) (Left env u .bounds s) s := by
    apply must_bounds hi.1 hop ((hs.at_pc hi).native (by rw [hop]; simp))
    · intro h0 hle
      rw [hs.rel.eax] at h0 hle
      omega
    · intro _ fl x n hinx hcall
      refine must_helper (s := { s with edi := AMX_ERR_BOUNDS, flags := fl, pc := x }) hinx hcall
        (by simp [scriptCalls]) rfl (by simp) hroom fun a ha => ?_
      have hpush : bytes (s.esp - 4) 4 ⊆ env.amxMem := by
        refine Set.Subset.trans (bytes_below (i := 4) (le_refl 4) ?_) hroom
        unfold need
        omega
      have hframe' : InFrame env u (env.mode u) { s with
          edi := AMX_ERR_BOUNDS, esp := s.esp - 4, flags := fl,
          mem := s.mem.write32 (s.esp - 4) n, pc := a } :=
        hframe.amxWork hu (eqOn_write n (Set.disjoint_compl_right_iff_subset.mpr hpush))
          rfl rfl rfl rfl rfl rfl rfl
      have hleft := called_left (X := X) (e := .bounds) fl hu hframe' ha hroom (if_neg hno)
        (if_neg hno) rfl
      exact hleft.must
  apply hmust.reached.imp
  rintro v ⟨hv, hr⟩
  apply hv.finished hX hu hret (hs.reach.trans hr) hpost rfl
  · exact hs.rel.eax
  · exact hs.rel.hea
  · exact fun o ho => hs.kept hc ho

/-- `RET` and `RETN` of the entry function -/
theorem finish_return (hX : ∀ u v, Entry env u → X u v → Returned env u v) (hu : Entry env u)
    (hret : Disjoint (retCell u) env.amxMem) (hs : Runs env (Step env X) u c E s)
    (hi : (setting env u host).At i c) (hop : i.opcode = .ret ∨ i.opcode = .retn)
    (hread : Disjoint (cellsOf ((c.st.stk + 4) :: readCellsOf i c)) (cellsOf c.live ∪ E))
    (hback : c.st.cell (c.st.stk + 4) = (setting env u host).back)
    (hc : (setting env u host).Safe ⟨i.next, c.st.returned i.opcode, c.live⟩)
    (hpost : post AMX_ERR_NONE (c.st.returned i.opcode)
      (cellsOf c.live ∪ E ∪ (c.st.returned i.opcode).gap)) :
    Must (Step env X) (Finished env u post) s := by
  have hrel := hs.rel
  have hframe := hs.frame hX hu
  have hcell {q : Word} (hq : q ∈ (c.st.stk + 4) :: readCellsOf i c) :
      s.mem.read32 (dataBase u.vars + q) = c.st.cell q :=
    hrel.cell fun o ho => Set.disjoint_left.mp hread (mem_cellsOf hq ho)
  have haddr : env.jit.image.addr .callReturn = some (s.mem.read32 (s.esp + 4)) := by
    have h4 : s.mem.read32 (s.esp + 4) = (setting env u host).back := by
      rw [hrel.esp, add_assoc, hcell (.head _)]
      exact hback
    obtain ⟨a, ha⟩ := env.jit.calls_addr .callReturn (.head _)
    rw [h4, ha]
    show some a = some ((env.jit.image.addr .callReturn).getD 0)
    rw [ha]
    rfl
  -- STK behind the arguments
  have hsize (hn : i.opcode = .retn) :
      s.mem.read32 (s.esp + 8) = c.st.cell (c.st.stk + 8) := by
    rw [hrel.esp, add_assoc]
    apply hcell
    unfold readCellsOf
    rw [hn]
    simp
  have htop (hn : i.opcode = .retn) : s.esp + 8 + s.mem.read32 (s.esp + 8) + 4 =
      dataBase u.vars + (c.st.returned i.opcode).stk := by
    unfold AmxState.returned
    rw [hsize hn, hn, hrel.esp]
    show _ = dataBase u.vars + (c.st.stk + 8 + (c.st.cell (c.st.stk + 8) + 4))
    simp only [add_assoc]
  have hesp {t : Machine} (ht : Back env i s t) :
      t.esp = dataBase u.vars + (c.st.returned i.opcode).stk := by
    rw [ht.esp]
    rcases hop with h | h
    · rw [if_neg (by rw [h]; simp), hrel.esp, h]
      exact add_assoc _ _ _
    · rw [if_pos h]
      exact htop h
  have hgap (o : Word) (ho : o ∈ (c.st.returned i.opcode).gap) :
      dataBase u.vars + o ∈ env.amxMem := hc.gap ho
  have h64 : 16 * 4 ≤ ((c.st.returned i.opcode).stk - (c.st.returned i.opcode).hea).toNat := by
    refine le_trans ?_ hc.room
    show 16 * 4 ≤ env.window + 256
    omega
  have hmust : Must (Step env X) (Back env i s) s := by
    apply must_back hi.1 hop ((hs.at_pc hi).native ?_) hframe.amx haddr
    · intro hn
      have he : s.esp + 8 + s.mem.read32 (s.esp + 8) =
          dataBase u.vars + ((c.st.returned i.opcode).stk - 4) := by
        rw [← sub_four, ← htop hn, BitVec.add_sub_cancel]
      rw [he]
      exact below_inside hgap h64
    · rcases hop with h | h <;> rw [h] <;> simp
  have hleft : Must (Step env X) (fun v => ∃ t, Back env i s t ∧ Left env u .return' t v) s := by
    apply hmust.bind
    intro t ht
    have hesp := hesp ht
    have hcell : bytes (t.esp - 4) 4 ⊆ env.amxMem := by
      rw [hesp, sub_four]
      exact below_inside hgap h64
    exact (return_left hu (ht.inFrame hu hframe hcell) ht.pc).mono (fun _ _ => trivial)
      fun v hv => ⟨t, ht, hv⟩
  apply hleft.reached.imp
  rintro v ⟨⟨t, ht, hv⟩, hr⟩
  have hesp := hesp ht
  have hreturn : (Ending.return').amx env.jit (u.esp - (env.mode u).depth) t =
      returnAmx env.jit.compiler t := rfl
  have hamx : (returnAmx env.jit.compiler t).error = s.vars.amx.error ∧
      (returnAmx env.jit.compiler t).hea = s.vars.amx.hea := by
    unfold returnAmx
    rw [ht.vars]
    split <;> exact ⟨rfl, rfl⟩
  apply hv.finished hX hu hret (hs.reach.trans hr) hpost
  · rw [hreturn, hamx.1]
    exact hs.error
  · exact ht.eax.trans hrel.eax
  · rw [hreturn, hamx.2]
    exact hrel.hea
  · intro o ho
    have hno : o ∉ cellsOf c.live ∪ E := fun h => ho (.inl h)
    have hgapo : o ∉ (c.st.returned i.opcode).gap := fun h => ho (.inr h)
    refine ⟨?_, ?_, ?_⟩
    · by_contra h
      exact hno (.inr (hs.covers (.inr h)))
    · show _ ∉ below t.esp env.need
      rw [hesp]
      exact notMem_below hc hgapo
    · refine Eq.trans (ht.mem ?_) (hrel.mem o hno)
      rw [hesp, sub_four]
      intro h
      have hin : o ∈ cellAt ((c.st.returned i.opcode).stk - 4) := by
        have h' : (dataBase u.vars + o - (dataBase u.vars + ((c.st.returned i.opcode).stk - 4))).toNat
            < 4 := h
        rwa [add_sub_add] at h'
      exact hgapo (cellAt_below h64 hin)

/-! ## going to sleep -/

/-- the registers that nothing changes -/
theorem Left.const {e : Ending} (hv : Left env u e t v) (hhdr : v.vars.hdr = t.vars.hdr) :
    amxConst v.vars = amxConst t.vars := by
  have hstp : (e.amx env.jit (u.esp - (env.mode u).depth) t).stp = t.vars.amx.stp := by
    cases e with
    | return' =>
      show (returnAmx _ t).stp = _
      unfold returnAmx
      split <;> rfl
    | halt error ret =>
      show (if env.jit.compiler.enableSleep = true ∧ error = AMX_ERR_SLEEP then _ else _ : Amx).stp = _
      split <;> rfl
    | bounds => rfl
    | callee f =>
      show (if env.jit.HaltSleeps _ then _ else _ : Amx).stp = _
      split <;> rfl
  unfold amxConst
  rw [hhdr, hv.amx]
  exact congrArg (AmxConst.mk _ _) hstp

/-- a point in front of `j` shows a configuration with the registers of `c`, but for PRI and HEA -/
theorem reflects_pointOf {k : AmxConst} {d pri hea : Word} {b : Mem} {F : Set Word}
    (hrel : Rel env.jit k d E c s) (hj : j ∈ env.jit.instrs) (hja : j.address = i.next)
    (hhea : t.vars.amx.hea = hea) (hmem : ∀ o, o ∉ cellsOf c.live ∪ F → t.mem (d + o) = b o)
    (hlive : ∀ o ∈ cellsOf c.live, t.mem (d + o) = s.mem (d + o) ∧ b o = c.st.mem o) :
    Reflects env.jit d F ⟨i.next, { c.st with pri := pri, hea := hea, mem := b }, c.live⟩
      (pointOf j pri s t) := by
  refine ⟨hj, hja, rfl, hrel.ecx, ?_, ?_, hhea, hmem, ?_⟩
  · show s.ebp - s.ebx = c.st.frm
    rw [hrel.ebp, hrel.ebx, add_sub_cancel_left]
  · show s.esp - s.ebx = c.st.stk
    rw [hrel.esp, hrel.ebx, add_sub_cancel_left]
  · intro q hq l hl hla
    show env.jit.At l (t.mem.read32 (d + q))
    rw [live_read hq fun o ho => (hlive o ho).1]
    apply hrel.live q hq l hl
    rw [hla]
    exact cell_congr fun o ho => (hlive o (mem_cellsOf hq ho)).2

/-- `HALT` with `AMX_ERR_SLEEP` -/
theorem sleeps_halt (hX : ∀ u v, Entry env u → X u v → Returned env u v)
    (hH : ∀ u v, X u v → v.vars.hdr = u.vars.hdr) (hu : Entry env u)
    (hret : Disjoint (retCell u) env.amxMem) (hs : Runs env (Step env X) u c E s)
    (hi : (setting env u host).At i c) (hop : i.opcode = .halt)
    (hsl : (setting env u host).Sleeping i.operand)
    (hc : (setting env u host).Wakeable { c with cip := i.next })
    (hslept : slept { c with cip := i.next } E) :
    Must (Step env X) (Sleeps env u host slept) s := by
  have hframe := hs.frame hX hu
  have hsafe : (setting env u host).Safe c := ⟨hc.room, hc.gap, hc.live, hc.area⟩
  obtain ⟨hsleep, herr⟩ := hsl
  obtain ⟨j, hj, hja, hproc⟩ := hc.next
  obtain ⟨ret, hat, hmust⟩ := must_halt (X := X) hu hframe hi.1 hop
    ((hs.at_pc hi).native (by rw [hop]; simp)) (safe_amxRoom hsafe hs.rel.esp)
  rw [herr] at hmust
  apply hmust.reached.imp
  rintro v ⟨hv, hr⟩
  have hreturned := exec_returned hX hu ⟨hs.reach.trans hr, hv.pc⟩
  obtain ⟨heax, hholds⟩ := halt_holds hu hsleep hret hframe hj hproc (hat j hj hja)
    hreturned.base hv
  refine ⟨hreturned, heax, ?_, { c with cip := i.next }, E, _, hslept, hc.toSafe, hs.covers,
    hholds, ?_⟩
  · rw [hv.const (reach_header hH hr)]
    exact hs.rel.const
  · rw [hs.rel.eax]
    exact reflects_pointOf hs.rel hj hja hs.rel.hea hs.rel.mem fun _ _ => ⟨rfl, rfl⟩

/-! ## native calls -/

/-- AMX memory that the helpers do not write to is as it was when the host function is called -/
theorem entered_mem {w ret a x : Word} (hu : Entry env u)
    (hm : Entered env u (env.mode u) f (requested s w ret a) m) (hin : x ∈ env.amxMem)
    (hout : x ∉ below s.esp env.need) : m.mem x = s.mem x := by
  have hneed : env.need = env.window + 256 := rfl
  have hwin := env.window_le
  have hesp : (requested s w ret a).esp = s.esp - BitVec.ofNat 32 8 :=
    sub_sub_lit s.esp (c := 8) (by decide)
  have hd : (env.mode u).depth.toNat ≤ 64 := by
    cases env.mode u <;> decide
  have hstack : below (u.esp - (env.mode u).depth) 36 ⊆ below u.esp env.need := by
    rw [← ofNat_toNat (env.mode u).depth]
    exact below_below (by omega) (by omega)
  have hpush {v : Word} (hv : 4 ≤ v.toNat ∧ v.toNat ≤ 8) : x ∉ bytes (s.esp - v) 4 := by
    rw [← ofNat_toNat v]
    exact fun h => hout (bytes_below hv.1 (by omega) h)
  have hcalled : m.mem x = (requested s w ret a).mem x := by
    apply hm.mem
    rintro (h | h)
    · rw [hesp] at h
      exact hout (below_below (by omega) (by omega) h)
    · exact hu.stack_below (hstack h) hin
  rw [hcalled]
  have h8 : x ∉ bytes (s.esp - 4 - 4) 4 := by
    rw [sub_sub_lit s.esp (c := 8) (by decide)]
    exact hpush (by decide)
  refine (write_out _ _ _ _ _ (Nat.le_of_not_lt h8)).trans (write_out _ _ _ _ _ ?_)
  exact Nat.le_of_not_lt (hpush (by decide))

/-- The abstract machine knows what the host function is called with, but for the cells that are stale. -/
theorem Runs.asks {w ret a : Word} (hu : Entry env u) (hs : Runs env (Step env X) u c E s)
    (hc : (setting env u host).Safe c)
    (hm : Entered env u (env.mode u) f (requested s w ret a) m) : c.Asks E (requestOf u m) := by
  have hgiven := hm.given
  have hrel := hs.rel
  refine ⟨?_, ?_, hgiven.hea.trans hrel.hea, fun o ho => ?_⟩
  · show m.vars.amx.frm = c.st.frm
    rw [hgiven.frm, hrel.ebp, hrel.ebx, add_sub_cancel_left]
  · show m.vars.amx.stk = c.st.stk
    rw [hgiven.stk, hrel.esp, hrel.ebx, add_sub_cancel_left]
  · obtain ⟨hin, hout, hval⟩ := hs.kept hc ho
    exact (entered_mem hu hm hin hout).trans hval

/-- the memory behind a native call -/
theorem Answered.memory (ht : Answered env u f r m t) {o : Word}
    (ho : o ∉ cellsOf c.live ∪ (setting env u host).outside (c.answered i r)) :
    dataBase u.vars + o ∈ env.amxMem ∧
      t.mem (dataBase u.vars + o) = (c.answered i r).st.mem o := by
  have hlive : o ∉ cellsOf c.live := fun h => ho (.inl h)
  have hin : dataBase u.vars + o ∈ env.amxMem := by
    by_contra h
    exact ho (.inr (.inr h))
  exact ⟨hin, (ht.mem o hin).trans (c.answered_mem i r hlive).symm⟩

/-- the host function has left the live return addresses alone -/
theorem Answered.live (ht : Answered env u f r m t) (hc : (setting env u host).Safe c)
    (hlive : Set.EqOn r.mem (requestOf u m).mem (cellsOf c.live)) {o : Word}
    (ho : o ∈ cellsOf c.live) :
    t.mem (dataBase u.vars + o) = m.mem (dataBase u.vars + o) ∧
      (c.answered i r).st.mem o = c.st.mem o :=
  ⟨(ht.mem o (hc.area ho)).trans (hlive ho), c.answered_live i r ho⟩

/-- The script goes on behind a native call. -/
theorem Runs.behind {w ret a : Word} (hX : ∀ u v, Entry env u → X u v → Returned env u v)
    (hu : Entry env u) (hs : Runs env (Step env X) u c E s) (hc : (setting env u host).Safe c)
    (hm : Entered env u (env.mode u) f (requested s w ret a) m) (ht : Answered env u f r m t)
    (hlive : Set.EqOn r.mem (requestOf u m).mem (cellsOf c.live)) (hnone : r.error = AMX_ERR_NONE)
    (hc' : (setting env u host).Safe (c.answered i r)) (hdec : (setting env u host).Decoded i.next)
    (heax : v.eax = r.pri) (hv : Behind env i s t v) (hdf : v.flags.df = t.flags.df)
    (hr : Relation.ReflTransGen (Step env X) s v) :
    Runs env (Step env X) u (c.answered i r) ((setting env u host).outside (c.answered i r)) v := by
  obtain ⟨j, hj, hja⟩ := hdec
  have hrel := hs.rel
  have hneed : env.need = env.window + 256 := rfl
  have hreach := hs.reach.trans hr
  have hframe := spot_script hX hu hreach hv.script
  have hmem (o : Word) (ho : o ∉ (c.answered i r).st.gap) :
      v.mem (dataBase u.vars + o) = t.mem (dataBase u.vars + o) := by
    apply hv.mem
    rw [hrel.esp]
    exact fun h => notMem_below hc' ho (bytes_below (i := 4) (le_refl 4) (by omega) h)
  have hkept (o : Word) (ho : o ∈ cellsOf c.live) :
      v.mem (dataBase u.vars + o) = s.mem (dataBase u.vars + o) := by
    rw [hmem o (live_notMem hc' ho), (ht.live (i := i) hc hlive ho).1]
    apply entered_mem hu hm (hc.area ho)
    rw [hrel.esp]
    exact notMem_below hc (live_notMem hc ho)
  refine ⟨hreach, ⟨⟨⟨heax, ?_, ?_, ?_, ?_, ?_⟩, ?_, ?_, hframe.amx, ?_, ?_⟩, j, hj, hja, hv.pc j hj hja⟩,
    ?_, Set.Subset.refl _⟩
  · exact hv.alt.trans hrel.ecx
  · exact hv.frm.trans hrel.ebp
  · exact hv.stk.trans hrel.esp
  · exact hv.ebx.trans hrel.ebx
  · rw [hv.vars]
    exact ht.hea
  · intro o ho
    rw [hmem o fun h => ho (.inr (.inl h))]
    exact (ht.memory (c := c) (i := i) ho).2
  · intro q hq k hk hka
    rw [live_read hq hkept]
    apply hrel.live q hq k hk
    rw [hka]
    exact cell_congr fun o ho => (ht.live hc hlive (mem_cellsOf hq ho)).2
  · rw [hv.vars]
    exact ht.const
  · exact hdf.trans ht.df
  · rw [hv.vars]
    exact ht.amxError.trans hnone

/-- a host function returns, whatever else it does -/
theorem callee_step {k : Mode} (hm : Calling env u k f m) : ∃ t, Step env X m t := by
  refine ⟨{ m with esp := m.esp + 4, pc := m.top }, ?_⟩
  have hrun (keep : Set Word) : HostRun env X keep m { m with esp := m.esp + 4, pc := m.top } :=
    .work (.refl m) ⟨rfl, rfl, rfl, rfl, rfl, rfl, fun _ _ => rfl⟩
  have hpc := hm.pc
  cases f with
  | callback => exact .callback hpc ⟨hrun _, rfl, rfl, rfl, rfl, rfl, rfl⟩
  | native => exact .native hpc ⟨hrun _, rfl, rfl, rfl, rfl, rfl, rfl⟩

/-- STK, where the helper has saved it -/
theorem resumed_esp {w ret a : Word} (hX : ∀ u v, Entry env u → X u v → Returned env u v)
    (hu : Entry env u) (hm : Entered env u (env.mode u) f (requested s w ret a) m)
    (ht : Step env X m t) : (f.resumed (u.esp - (env.mode u).depth) t).esp = s.esp := by
  obtain ⟨-, -, -, -, -, hpushed⟩ := hm.calling.behind hu hX ht
  show t.mem.read32 (u.esp - (env.mode u).depth - 4) = s.esp
  rw [read_pushed hu _ hpushed (by decide), hm.stk, sub_eight]

/-- the host function has answered with an error that ends the function -/
theorem finish_native {w ret a : Word} (hX : ∀ u v, Entry env u → X u v → Returned env u v)
    (hu : Entry env u) (hret : Disjoint (retCell u) env.amxMem) (hs : Runs env (Step env X) u c E s)
    (hm : Entered env u (env.mode u) f (requested s w ret a) m)
    (hr : Relation.ReflTransGen (Step env X) s m) (hst : Step env X m t)
    (ht : Answered env u f r m t) (hpri : f.pri t = r.pri) (herr : r.error ≠ AMX_ERR_NONE)
    (hno : ¬ (setting env u host).Sleeping r.error)
    (hc : (setting env u host).Safe (c.answered i r))
    (hpost : post r.error (c.answered i r).st
      (cellsOf c.live ∪ (setting env u host).outside (c.answered i r))) :
    Must (Step env X) (Finished env u post) t := by
  have herr' : f.error t ≠ AMX_ERR_NONE := by
    rw [ht.error]
    exact herr
  have hno' : ¬ env.jit.HaltSleeps (f.resumed (u.esp - (env.mode u).depth) t) := by
    intro hsl
    exact hno ⟨hsl.1, ht.error.symm.trans hsl.2⟩
  have hesp := resumed_esp hX hu hm hst
  have hamx := Ending.amx_abort hno'
  apply (must_error hX hu hm.calling hst herr' hno').reached.imp
  rintro v ⟨hv, hrv⟩
  apply hv.finished hX hu hret ((hs.reach.trans (hr.tail hst)).trans hrv) hpost
  · rw [hamx]
    exact ht.error
  · exact hpri
  · rw [hamx]
    exact ht.hea
  · intro o ho
    obtain ⟨hin, hval⟩ := ht.memory ho
    refine ⟨hin, ?_, hval⟩
    show _ ∉ below (f.resumed (u.esp - (env.mode u).depth) t).esp env.need
    rw [hesp, hs.rel.esp]
    exact notMem_below hc fun h => ho (.inr (.inl h))

/-- the host function has put the script to sleep -/
theorem sleeps_native {w ret a : Word} (hX : ∀ u v, Entry env u → X u v → Returned env u v)
    (hH : ∀ u v, X u v → v.vars.hdr = u.vars.hdr) (hu : Entry env u)
    (hret : Disjoint (retCell u) env.amxMem) (hs : Runs env (Step env X) u c E s)
    (hsafe : (setting env u host).Safe c)
    (hm : Entered env u (env.mode u) f (requested s w ret a) m)
    (hat : ∀ j ∈ env.jit.instrs, j.address = i.next → env.jit.At j ret)
    (hr : Relation.ReflTransGen (Step env X) s m) (hst : Step env X m t)
    (ht : Answered env u f r m t) (hspared : Spared env f m t)
    (hlive : Set.EqOn r.mem (requestOf u m).mem (cellsOf c.live))
    (hsl : (setting env u host).Sleeping r.error)
    (hc : (setting env u host).Wakeable (c.answered i r))
    (hslept : slept (c.answered i r) ((setting env u host).outside (c.answered i r))) :
    Must (Step env X) (Sleeps env u host slept) t := by
  obtain ⟨j, hj, hja, hproc⟩ := hc.next
  have hamx := ht.amxError.trans hsl.2
  obtain ⟨hcip, hfrm, hstk⟩ := hspared.asleep hsl.1 hamx
  have hsl' : env.jit.HaltSleeps (f.resumed (u.esp - (env.mode u).depth) t) :=
    ⟨hsl.1, ht.error.trans hsl.2⟩
  have hmust : Must (Step env X) (Left env u (.callee f) t) t :=
    (sleep_left hX hu hm.calling hst hsl').must
  apply hmust.reached.imp
  rintro v ⟨hv, hrv⟩
  have hreturned := exec_returned hX hu ⟨(hs.reach.trans (hr.tail hst)).trans hrv, hv.pc⟩
  obtain ⟨heax, hholds⟩ := callee_holds hX hu hret (hs.frame hX hu) hm hst hsl' hamx hcip hfrm hstk
    hj hproc (hat j hj hja) hreturned.base hv
  refine ⟨hreturned, heax, ?_, c.answered i r, _, _, hslept, hc.toSafe, Set.Subset.refl _, hholds, ?_⟩
  · rw [hv.const (reach_header hH hrv)]
    exact ht.const
  · rw [hspared.pri, ht.pri]
    apply reflects_pointOf hs.rel hj hja ht.hea fun o ho => (ht.memory ho).2
    intro o ho
    obtain ⟨hkept, hval⟩ := ht.live (i := i) hsafe hlive ho
    refine ⟨hkept.trans ?_, hval⟩
    apply entered_mem hu hm (hsafe.area ho)
    rw [hs.rel.esp]
    exact notMem_below hsafe (live_notMem hsafe ho)

/-- **A native call**: if the host function keeps its contract and the helper finds what it needs, the
script goes on, or the function comes to its end or sleeps. -/
theorem comes_native (hX : ∀ u v, Entry env u → X u v → Returned env u v)
    (hH : ∀ u v, X u v → v.vars.hdr = u.vars.hdr) (hu : Entry env u)
    (hret : Disjoint (retCell u) env.amxMem) (hlinked : Linked env) (hs : Runs env (Step env X) u c E s)
    (hi : (setting env u host).At i c) (hop : i.opcode.requests = true)
    (hintr : i.intrinsic env.jit.amx = none) (hc : (setting env u host).Safe c)
    (hdec : (setting env u host).Decoded i.next)
    (hafter : ∀ q r, (setting env u host).Exchange i c E q r →
      (setting env u host).Safe (c.answered i r) ∧ Set.EqOn r.mem q.mem (cellsOf c.live))
    (hon : ∀ q r, (setting env u host).Exchange i c E q r → r.error = AMX_ERR_NONE → ∀ v,
      Runs env (Step env X) u (c.answered i r) ((setting env u host).outside (c.answered i r)) v →
        Unless (Step env X) (Faulty env u host) (Comes env u host post slept) v)
    (hend : ∀ q r, (setting env u host).Exchange i c E q r → r.error ≠ AMX_ERR_NONE →
      ¬ (setting env u host).Sleeping r.error → post r.error (c.answered i r).st
        (cellsOf c.live ∪ (setting env u host).outside (c.answered i r)))
    (hsleep : ∀ q r, (setting env u host).Exchange i c E q r → (setting env u host).Sleeping r.error →
      (setting env u host).Wakeable (c.answered i r) ∧
        slept (c.answered i r) ((setting env u host).outside (c.answered i r))) :
    Unless (Step env X) (Faulty env u host) (Comes env u host post slept) s := by
  have hframe := hs.frame hX hu
  have hproc : i.opcode ≠ .proc := by
    intro h
    rw [h] at hop
    exact absurd hop (by decide)
  have hpc := (hs.at_pc hi).native hproc
  have hin := env.jit.inScript_native hpc
  obtain ⟨b, ret, hb, hseg, hat⟩ := Jit.code_at hi.1 hpc
  obtain ⟨f, o, rfl, ho, hcallee⟩ := request_code hop hintr hb
  obtain ⟨hf, hload⟩ := hcallee s
  have hnative (hnat : f = .native) :
      (env.jit.compiler.callee env.jit.amx i s.eax).2 ∈ env.natives := by
    subst hnat
    obtain ⟨w, hw, rfl⟩ := hlinked i hi.1 _ hb
    cases hload
    exact hw
  have hretin : env.jit.InScript ret := by
    obtain ⟨x, hs1, hs2⟩ := seg_append.mp hseg
    exact inScript_emit (inScript_asm hin hs1) hs2
  apply (must_request hu hframe hin hseg hload hnative (safe_amxRoom hc hs.rel.esp)).reached.unless.bind
  rintro m ⟨⟨a, hm⟩, hr⟩
  refine .next (callee_step hm.calling) fun t hst hok => ?_
  -- the return of the host function is not faulty
  have hgood : Keeps env u host f m t ∧ Spared env f m t := by
    by_contra hbad
    exact hok ⟨f, hm.calling.pc, not_and_or.mp hbad⟩
  obtain ⟨⟨r, hhost, ht⟩, hspared⟩ := hgood
  have hex : (setting env u host).Exchange i c E (requestOf u m) r := by
    refine ⟨hs.asks hu hc hm, ?_⟩
    show host (env.jit.compiler.callee env.jit.amx i c.st.pri).1
      (env.jit.compiler.callee env.jit.amx i c.st.pri).2 _ r
    rw [← hs.rel.eax, hf, ← hm.which]
    exact hhost
  obtain ⟨hc', hlive⟩ := hafter _ r hex
  have hpri := hspared.pri.trans ht.pri
  by_cases hnone : r.error = AMX_ERR_NONE
  · have hgo := until_df (until_behind hX hu hframe hm hretin hat hst (ht.error.trans hnone))
    apply hgo.must.reached.unless.bind
    rintro v ⟨⟨⟨heax, hv⟩, hdf⟩, hrv⟩
    exact hon _ r hex hnone v (hs.behind hX hu hc hm ht hlive hnone hc' hdec (heax.trans hpri) hv hdf
      ((hr.tail hst).trans hrv))
  by_cases hsl : (setting env u host).Sleeping r.error
  · obtain ⟨hwake, hslept⟩ := hsleep _ r hex hsl
    exact (sleeps_native hX hH hu hret hs hc hm hat hr hst ht hspared hlive hsl hwake
      hslept).unless.imp fun v hv => .inr hv
  · exact (finish_native hX hu hret hs hm hr hst ht hpri hnone hsl hc'
      (hend _ r hex hnone hsl)).unless.imp fun v hv => .inl hv

/-! ## the whole run -/

/-- **A script at a configuration comes to what the abstract machine comes to**, in the call of `Exec`
that runs it. -/
theorem unless_conclude (hX : ∀ u v, Entry env u → X u v → Returned env u v)
    (hH : ∀ u v, X u v → v.vars.hdr = u.vars.hdr) (hdebug : env.jit.compiler.debugFlags = 0)
    (hlinked : Linked env) (hu : Entry env u) (hret : Disjoint (retCell u) env.amxMem)
    (h : Concludes (setting env u host) post slept c E) (hs : Runs env (Step env X) u c E s) :
    Unless (Step env X) (Faulty env u host) (Comes env u host post slept) s := by
  induction h generalizing s with
  | step hstep hv hv' htr hconf hgap hcov _ ih =>
    exact (runs_step hdebug hs hstep hv hv' htr hconf hgap hcov).unless.bind fun t ht => ih ht
  | inBounds hi hop h0 hle hdec _ ih =>
    exact (runs_bounds hs hi hop h0 hle hdec).unless.bind fun t ht => ih ht
  | outOfBounds hi hop hfail hc hpost =>
    exact (finish_bounds hX hu hret hs hi hop hfail hc hpost).unless.imp fun v hv => .inl hv
  | jump hi hop hc hj hto _ ih =>
    exact (runs_jump hs hi hop hc hj hto).unless.bind fun t ht => ih ht
  | lookup hi hop h8 hc hdec _ ih =>
    exact (runs_lookup hs hi hop h8 hc hdec).unless.bind fun t ht => ih ht
  | goto hi hop h8 hj hto _ ih =>
    exact (runs_goto hs hi hop h8 hj hto).unless.bind fun t ht => ih ht
  | float hi hn hc hdec _ ih =>
    apply (runs_float hs hi hn hc hdec).unless.bind
    rintro t ⟨v, hv, ht⟩
    exact ih v hv ht
  | native hi hop hintr hc hdec hafter _ hend hsleep ih =>
    exact comes_native hX hH hu hret hlinked hs hi hop hintr hc hdec hafter
      (fun q r hr hnone v hv => ih q r hr hnone hv) hend hsleep
  | return' hi hop hread hback hc hpost =>
    exact (finish_return hX hu hret hs hi hop hread hback hc hpost).unless.imp fun v hv => .inl hv
  | halt hi hop hno hc hpost =>
    exact (finish_halt hX hu hret hs hi hop hno hc hpost).unless.imp fun v hv => .inl hv
  | sleep hi hop hsl hc hslept =>
    exact (sleeps_halt hX hH hu hret hs hi hop hsl hc hslept).unless.imp fun v hv => .inr hv

end

end Env

end AmxJit
