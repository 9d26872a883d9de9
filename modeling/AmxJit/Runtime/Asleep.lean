import AmxJit.Runtime.Natives

/-!
# Natives that run scripts and put their caller to sleep

The helper saves CIP, FRM and STK in the AMX structure before it calls the native, and does not write
them again when the native asks to sleep.  They are written by native calls, by `HaltHelper`, by
`RETN` (`stk` alone), and where `Exec` publishes the registers of a script that returns.

* `Asleep i s p v`     `v` has the AMX registers of the native call `i` at `s`, with `p` in PRI;
* `quiet_reach`        a run has not written `cip` and `frm` before its first native call;
* `Returns env R p u v`  a call of `Exec` that calls no native; its entry function returns, and leaves
                       `amx->stk = p`;
* `QuietRun`           what a native does that makes such calls;
* `sleep_fields_kept`  when it sleeps, its caller is suspended at the native call;
* `sleep_fields_nested`   a nested `Exec` of a function that calls a native itself replaces CIP.
-/

set_option linter.constructorNameAsVariable false

namespace AmxJit
open X86 Trans Reg

namespace Env

/-- the AMX structure has the address `a` in `cip`, and FRM and STK at `s` -/
structure SavedAt (a : Word) (s : Machine) (amx : Amx) : Prop where
  cip : amx.cip = a
  frm : amx.frm = s.ebp - s.ebx
  stk : amx.stk = s.esp - s.ebx

/-- the AMX structure suspends the script at the native call `i`, with the result `p` -/
structure Asleep (i : Instruction) (s : Machine) (p : Word) (amx : Amx) : Prop
    extends SavedAt i.next s amx where
  pri : amx.pri = p
  alt : amx.alt = s.ecx

variable {env : Env} {X : Machine → Machine → Prop} {C : Machine → Prop} {n : Nat}
variable {u s q c t v : Machine} {k : Mode} {f : Callee} {i : Instruction} {keep : Set Word} {p : Word}

/-- the helper saves them before the call -/
theorem Entered.saved (h : Entered env u k f q c) (hsleep : env.jit.compiler.enableSleep = true)
    (hesp : q.esp + 8 = s.esp) (hebp : q.ebp = s.ebp) (hebx : q.ebx = s.ebx) :
    SavedAt (env.jit.returnCip q) s c.vars.amx := by
  rw [h.vars]
  refine ⟨?_, ?_, ?_⟩
  · show (if env.jit.compiler.enableSleep then env.jit.returnCip q else q.vars.amx.cip) = _
    rw [if_pos hsleep]
  · show q.ebp - q.ebx = _
    rw [hebp, hebx]
  · show q.esp + 8 - q.ebx = _
    rw [hesp, hebx]

/-- The helper saves the address of its return address, FRM and STK before the call; the script is
asleep at the native call if the native leaves that instruction, FRM and STK, and its result is read
from where it is. -/
theorem asleep_left (hu : Entry env u) (hr : Relation.ReflTransGen (level env C n) u s)
    (hi : i ∈ env.jit.instrs) (hop : i.opcode.requests = true)
    (hintr : i.intrinsic env.jit.amx = none) (hpc : env.jit.native i.address = some s.pc)
    (hc : Invokes env (level env C n) f s c) (ht : level env C n c t)
    (hsleep : env.jit.compiler.enableSleep = true) (herr : f.error t = AMX_ERR_SLEEP)
    (hv : Relation.ReflTransGen (level env C n) t v) (hvpc : v.pc = u.top) :
    ∃ ret, env.jit.Pushes i ret ∧
      SavedAt (getANXAddressByJITInstrPtr env.jit.instrTable ret) s c.vars.amx ∧
      (Asleep i s (f.result c t) v.vars.amx ↔
        SavedAt i.next s t.vars.amx ∧ (f = .native ∨ t.mem.read32 t.ecx = f.result c t)) := by
  obtain ⟨X, hlevel, hX⟩ := @level_calls env C n
  have hend : Ended env (level env C n) u (.callee f) t := by
    refine .callee f (hr.trans hc.reach) hc.2 ht ?_
    rw [herr]
    decide
  have hleft := ended_left hu hend hv hvpc
  rw [hlevel] at hr hc ht
  obtain ⟨hs, w, ret, a, hentered, -, hpush, -⟩ := invokes_entered hX hu hr hi hop hintr hpc hc
  refine ⟨ret, hpush, ?_, ?_⟩
  · have hret : env.jit.returnCip (requested s w ret a) =
        getANXAddressByJITInstrPtr env.jit.instrTable ret :=
      congrArg (getANXAddressByJITInstrPtr _) (read32_write32_self _ _ _)
    rw [← hret]
    exact hentered.saved hsleep (sub_eight s w ret a) rfl rfl
  obtain ⟨-, -, -, -, -, hmem⟩ := hentered.calling.behind hu hX ht
  have halt : (f.resumed (u.esp - (env.mode u).depth) t).ecx = s.ecx := by
    show t.mem.read32 (u.esp - (env.mode u).depth - 12) = s.ecx
    rw [read_pushed hu _ hmem (by decide), hentered.alt]
    rfl
  have hamx : v.vars.amx = { sleepAmx (f.resumed (u.esp - (env.mode u).depth) t) with
      error := AMX_ERR_NONE } := by
    rw [hleft.amx, Ending.amx_sleep ⟨hsleep, herr⟩]
  rw [hamx, ← Callee.pri_iff]
  constructor
  · intro h
    exact ⟨⟨h.cip, h.frm, h.stk⟩, h.pri⟩
  · intro h
    exact ⟨⟨h.1.cip, h.1.frm, h.1.stk⟩, h.2, halt⟩

/-! ## scripts that call no native -/

/-- `amx->cip` and `frm` are as at the entry `u` of `Exec`, and there is no error. -/
structure Unwritten (u s : Machine) : Prop where
  cip : s.vars.amx.cip = u.vars.amx.cip
  frm : s.vars.amx.frm = u.vars.amx.frm
  error : s.vars.amx.error = AMX_ERR_NONE

/-- The spots of a run of `Exec`, with what the script has left unwritten before the first native
call. -/
inductive QuietSpot (env : Env) (u : Machine) : Machine → Prop where
  | script {s : Machine} : InFrame env u (env.mode u) s → env.jit.InScript s.pc → Unwritten u s →
      QuietSpot env u s
  | calling {s : Machine} (f : Callee) : Calling env u (env.mode u) f s → QuietSpot env u s
  | lost {s : Machine} : s.pc = 0 → QuietSpot env u s
  | returned {s : Machine} : Returned env u s → QuietSpot env u s

/-- an instruction of the script writes neither `cip` nor `frm` nor `error` -/
theorem Unwritten.script (hs : Unwritten u s) (hin : env.jit.InScript s.pc) (h : Step env X s t) :
    Unwritten u t := by
  obtain ⟨-, i, n, hf, hstep⟩ := step_script hin h
  obtain ⟨-, hq⟩ := step_quiet (env.jit.fetch_calm hin hf) hstep
  simp only [quiet, Prod.mk.injEq, Amx.mk.injEq] at hq
  obtain ⟨-, -, -, -, -, -, hcip, hfrm, -, -, -, -, -, herror, -⟩ := hq
  exact ⟨hcip.trans hs.cip, hfrm.trans hs.frm, herror.trans hs.error⟩

theorem quiet_lookup {a : Word} (hs : InFrame env u (env.mode u) s)
    (hpc : s.pc = getJITInstrPtr env.jit.instrTable a) (h : Unwritten u s) : QuietSpot env u s := by
  by_cases h0 : getJITInstrPtr env.jit.instrTable a = 0
  · exact .lost (hpc.trans h0)
  · refine .script hs ?_ h
    rw [hpc]
    exact env.jit.inScript_lookup h0

theorem quiet_entry (hu : env.Entry u) : Until (Step env X) env.Plain (QuietSpot env u) u := by
  refine until_exec (env.drives X) hu ?_ ?_ ?_ ?_
  · intro error t hcheck hr
    have hmode : env.mode u = .start := mode_start fun h => by
      rw [h.1] at hcheck
      exact absurd hcheck (by simp)
    exact .now (.returned (returned_rejected hu hmode hr))
  · intro _ hno _ t hr
    exact .now (.returned (returned_rejected hu (mode_start fun h => hno h.2) hr))
  · intro _ hno _ t ht
    have hin := ht.inFrame
    rw [← mode_start fun h => hno h.2] at hin
    refine .now (quiet_lookup hin ht.pc ?_)
    constructor <;> rw [ht.vars] <;> rfl
  · intro hcheck hc t ht
    have hin := ht.inFrame
    rw [← mode_continue ⟨hcheck, hc⟩] at hin
    refine .now (quiet_lookup hin ht.pc ?_)
    constructor <;> rw [ht.vars] <;> rfl

/-- **What one step of the script preserves**; no step is taken from a callee. -/
theorem quiet_step (hu : env.Entry u) (hs : QuietSpot env u s)
    (h : Before (fun a => env.HostPc a.pc) (Step env X) s t) :
    Until (Step env X) env.Plain (QuietSpot env u) t := by
  obtain ⟨hhost, hstep⟩ := h
  cases hs with
  | script hframe hin hs =>
    have ht := hs.script hin hstep
    refine until_script hu hframe hin hstep (fun r hr hpc hvars => .script hr hpc ?_)
      (fun f _ hc => .calling f hc) fun _ => .returned
    constructor <;> rw [hvars]
    · exact ht.cip
    · exact ht.frm
    · exact ht.error
  | calling f hc => exact absurd (hostPc_callee hc.pc) hhost
  | lost hpc =>
    refine absurd hstep (no_step ?_)
    rw [hpc]
    exact hostAddr_zero
  | returned hr =>
    refine absurd hstep (no_step ?_)
    rw [hr.pc]
    exact hu.ret

/-- **What a run preserves up to its first native call.** -/
theorem quiet_reach (hu : env.Entry u)
    (hr : Relation.ReflTransGen (Before (fun a => env.HostPc a.pc) (Step env X)) u q)
    (hin : env.jit.InScript q.pc) : InFrame env u (env.mode u) q ∧ Unwritten u q := by
  have hspot : QuietSpot env u q := by
    refine (quiet_entry (X := X) hu).along (fun _ _ h => h.2) (fun _ _ => quiet_step hu) hr |>.or
      |>.resolve_right fun hp => hp.script hin
  cases hspot with
  | script hframe _ h => exact ⟨hframe, h⟩
  | calling f h =>
    exact absurd hin (env.jit.not_inScript (env.outside_of_hostPc (hostPc_callee h.pc)))
  | lost h0 =>
    rw [h0] at hin
    exact absurd hin (env.jit.not_inScript env.null.1)
  | returned h =>
    rw [h.pc] at hin
    exact absurd hin (env.jit.not_inScript hu.ret.1)

/-! ## the return -/

/-- `amx->stk` behind the `RET` or `RETN` of a script in the state `q`: `RETN` publishes the STK to
which it returns -/
def stkBehind (j : Instruction) (q : Machine) : Word :=
  if j.opcode = .retn then q.esp + 8 + q.mem.read32 (q.esp + 8) + 4 - q.ebx else q.vars.amx.stk

/-- from the `ret` back to `ExecHelper` to the return of `Exec` -/
theorem leads_ret {n : Word} (hu : env.Entry u) (hs : InFrame env u (env.mode u) s)
    (hin : env.jit.InScript s.pc) (hf : env.jit.image.fetch s.pc = some (.ret, n))
    (hback : env.jit.image.addr .callReturn = some s.top)
    (hsleep : env.jit.compiler.enableSleep = true) (herror : s.vars.amx.error = AMX_ERR_NONE) :
    Leads env X u (fun v => v.vars.amx = s.vars.amx) s := by
  refine leads_script hu hs hin hf (t := { s with pc := s.top, esp := s.esp + 4 }) rfl
    fun hframe _ => ?_
  refine (leads_callReturn hu hframe hback).imp fun v hv => ?_
  have hne : s.vars.amx.error ≠ AMX_ERR_SLEEP := by
    rw [herror]
    decide
  have hret : returnAmx env.jit.compiler { s with pc := s.top, esp := s.esp + 4 } = s.vars.amx :=
    if_pos ⟨hsleep, hne⟩
  rw [hv.amx]
  show { returnAmx env.jit.compiler { s with pc := s.top, esp := s.esp + 4 } with
    error := AMX_ERR_NONE } = _
  rw [hret, ← herror]

/-- **The return of an entry function**, with sleep enabled and without an error -/
theorem leads_return {j : Instruction} (hu : env.Entry u) (hs : InFrame env u (env.mode u) q)
    (hj : j ∈ env.jit.instrs) (hop : j.opcode = .ret ∨ j.opcode = .retn)
    (hpc : env.jit.native j.address = some q.pc)
    (hback : env.jit.image.addr .callReturn = some (q.mem.read32 (q.esp + 4)))
    (hsleep : env.jit.compiler.enableSleep = true) (herror : q.vars.amx.error = AMX_ERR_NONE) :
    Leads env X u (fun v => v.vars.amx = { q.vars.amx with stk := stkBehind j q }) q := by
  have hin := env.jit.inScript_native hpc
  obtain ⟨b, e, hb, hseg, -⟩ := Jit.code_at hj hpc
  unfold compileInstr controlCode at hb
  rcases hop with hop | hop
  · rw [hop] at hb
    cases (show some emitRet = some b from hb)
    obtain ⟨x, hline, n, hf, -⟩ := seg_append.mp hseg
    have hstk : stkBehind j q = q.vars.amx.stk := if_neg (by rw [hop]; simp)
    rw [hstk]
    exact leads_code hu hs hin hline rfl fun hframe hinx =>
      leads_ret hu hframe hinx hf hback hsleep herror
  · rw [hop] at hb
    cases (show some emitRetn = some b from hb)
    obtain ⟨x, hline, n, hf, -⟩ := seg_append.mp hseg
    obtain ⟨fl, hrun, -⟩ := retn_run env.jit.image.addr q (hs.amx)
    have hstk : stkBehind j q = q.esp + 8 + q.mem.read32 (q.esp + 8) + 4 - q.ebx := if_pos hop
    rw [hstk]
    refine leads_code hu hs hin hline hrun fun hframe hinx =>
      leads_ret hu hframe hinx hf (hback.trans (congrArg some ?_)) hsleep herror
    exact (read32_write32_self _ _ _).symm

/-- A call of `Exec` from `u` to `v` calls no native; its entry function returns by `RET` or `RETN`,
and leaves `amx->stk = p`. -/
def Returns (env : Env) (R : Machine → Machine → Prop) (p : Word) (u v : Machine) : Prop :=
  ∃ q j, Relation.ReflTransGen (Before (fun a => env.HostPc a.pc) R) u q ∧ j ∈ env.jit.instrs ∧
    (j.opcode = .ret ∨ j.opcode = .retn) ∧ env.jit.native j.address = some q.pc ∧
    env.jit.image.addr .callReturn = some (q.mem.read32 (q.esp + 4)) ∧ stkBehind j q = p ∧
    Relation.ReflTransGen R q v ∧ v.pc = u.top

theorem Returns.exec {R : Machine → Machine → Prop} {p : Word} (h : Returns env R p u v) :
    Exec R u v := by
  obtain ⟨q, j, hr, -, -, -, -, -, hv, hpc⟩ := h
  exact ⟨(Before.reach hr).trans hv, hpc⟩

/-- **A call of `Exec` that calls no native leaves `amx->cip` and `frm` as they are.** -/
theorem returns_kept {C : Machine → Prop} {n : Nat} {p : Word} (hu : env.Entry u)
    (h : Returns env (level env C n) p u v) (hsleep : env.jit.compiler.enableSleep = true) :
    v.vars.amx.cip = u.vars.amx.cip ∧ v.vars.amx.frm = u.vars.amx.frm ∧ v.vars.amx.stk = p := by
  obtain ⟨q, j, hr, hj, hop, hpc, hback, hstk, hv, hvpc⟩ := h
  obtain ⟨X, hX, -⟩ := @level_calls env C n
  rw [hX] at hr hv
  obtain ⟨hs, hq⟩ := quiet_reach hu hr (env.jit.inScript_native hpc)
  have hamx := leads_return (X := X) hu hs hj hop hpc hback hsleep hq.error v hv hvpc
  rw [hamx]
  exact ⟨hq.cip, hq.frm, hstk⟩

/-! ## the native -/

/-- What a native does from the state `s` to another that leaves its caller suspended: work that
does not write `amx->cip`, `frm` and `stk`, and calls of `Exec` that call no native and leave
`amx->stk = p`; before such a call it may push arguments. -/
inductive QuietRun (env : Env) (C : Machine → Prop) (n : Nat) (keep : Set Word) (p : Word)
    (s : Machine) : Machine → Prop where
  | refl : QuietRun env C n keep p s s
  | work {t v : Machine} : QuietRun env C n keep p s t → HostWork keep t v →
      v.vars.amx.cip = t.vars.amx.cip → v.vars.amx.frm = t.vars.amx.frm →
      v.vars.amx.stk = t.vars.amx.stk → QuietRun env C n keep p s v
  | exec {t u v : Machine} : QuietRun env C n keep p s t → HostWork keep t u →
      u.vars.amx.cip = t.vars.amx.cip → u.vars.amx.frm = t.vars.amx.frm →
      Entry env u → keep ⊆ upTo env.top (u.esp + 12) →
      (u.mem.read32 (u.esp + 8) = 0 ∨ Disjoint (bytes (u.mem.read32 (u.esp + 8)) 4) keep) →
      C u → Returns env (level env C n) p u v → QuietRun env C n keep p s v

theorem QuietRun.hostRun (h : QuietRun env C n keep p s t) :
    HostRun env (fun u v => C u ∧ Exec (level env C n) u v) keep s t := by
  induction h with
  | refl => exact .refl s
  | work _ hw _ _ _ ih => exact ih.work hw
  | exec _ hw _ _ hu hkeep hret hC hr ih => exact (ih.work hw).exec hu hkeep hret ⟨hC, hr.exec⟩

/-- **What a quiet native preserves**, by induction over its calls of `Exec`. -/
theorem quietRun_kept (h : QuietRun env C n keep p s t) (hp : s.vars.amx.stk = p)
    (hsleep : env.jit.compiler.enableSleep = true) :
    t.vars.amx.cip = s.vars.amx.cip ∧ t.vars.amx.frm = s.vars.amx.frm ∧ t.vars.amx.stk = p := by
  induction h with
  | refl => exact ⟨rfl, rfl, hp⟩
  | work _ _ hcip hfrm hstk ih =>
    obtain ⟨h1, h2, h3⟩ := ih
    exact ⟨hcip.trans h1, hfrm.trans h2, hstk.trans h3⟩
  | exec _ _ hcip hfrm hu _ _ _ hr ih =>
    obtain ⟨h1, h2, -⟩ := ih
    obtain ⟨h1', h2', h3'⟩ := returns_kept hu hr hsleep
    exact ⟨h1'.trans (hcip.trans h1), h2'.trans (hfrm.trans h2), h3'⟩

/-- **A native that sleeps after quiet runs suspends its call**, if the return address of the call is
found, and its result is read from where it is. -/
theorem sleep_fields_kept (env : Env) (C : Machine → Prop) (n : Nat) (u s c t v : Machine)
    (hu : Entry env u) (hr : Relation.ReflTransGen (level env C (n + 1)) u s) (i : Instruction)
    (hi : i ∈ env.jit.instrs) (hop : i.opcode.requests = true)
    (hintr : i.intrinsic env.jit.amx = none) (hpc : env.jit.native i.address = some s.pc)
    (f : Callee) (hc : Invokes env (level env C (n + 1)) f s c) (ht : level env C (n + 1) c t)
    (hrun : QuietRun env C n (upTo env.top (c.esp + f.frame)) (s.esp - s.ebx) c t)
    (hsleep : env.jit.compiler.enableSleep = true) (herr : f.error t = AMX_ERR_SLEEP)
    (hv : Relation.ReflTransGen (level env C (n + 1)) t v) (hvpc : v.pc = u.top) :
    ∃ ret, env.jit.Pushes i ret ∧ (Asleep i s (f.result c t) v.vars.amx ↔
      getANXAddressByJITInstrPtr env.jit.instrTable ret = i.next ∧
        (f = .native ∨ t.mem.read32 t.ecx = f.result c t)) := by
  obtain ⟨ret, hpush, hsaved, hleft⟩ :=
    asleep_left hu hr hi hop hintr hpc hc ht hsleep herr hv hvpc
  refine ⟨ret, hpush, hleft.trans (and_congr ?_ Iff.rfl)⟩
  obtain ⟨hcip, hfrm, hstk⟩ := quietRun_kept hrun hsaved.stk hsleep
  constructor
  · intro h
    exact hsaved.cip.symm.trans (hcip.symm.trans h.cip)
  · intro h
    exact ⟨hcip.trans (hsaved.cip.trans h), hfrm.trans hsaved.frm, hstk⟩

/-! ## an instance -/

theorem sampleJit_call : (⟨8, .sysreqPri, []⟩ : Instruction) ∈ sampleJit.instrs := by
  rw [sampleJit_instrs]
  simp

theorem sample_pushes : sampleJit.Pushes ⟨8, .sysreqPri, []⟩ 33201 := by
  refine ⟨[.push eax], 33199, 33200, .sysreqCHelper, by simp [suspendingHelpers], rfl, ?_, ?_, ?_⟩
  · decide +kernel
  · exact ⟨33200, by decide +kernel, rfl⟩
  · decide +kernel

/-- `main` of the sample calls the callback -/
theorem sample_request (X : Machine → Machine → Prop) :
    let u := sampleEntry AMX_EXEC_MAIN 0 sampleProgram.amx
    Entry sampleEnv u ∧ ∃ s c : Machine, Relation.ReflTransGen (Step sampleEnv X) u s ∧
      sampleJit.native 8 = some s.pc ∧ Invokes sampleEnv (Step sampleEnv X) .callback s c ∧
      Calling sampleEnv u .start .callback c ∧ SavedAt 12 s c.vars.amx ∧ s.esp - s.ebx = 248 ∧
      c.esp = 0x17ff9c ∧ c.vars.amx = { sampleProgram.amx with
        cip := 12, stk := 248, error := AMX_ERR_NONE, paramcount := 0 } := by
  intro u
  have hu : Entry sampleEnv u := sampleEntry_entry (.inl rfl) rfl rfl rfl
  have hno : ¬ Continues sampleEnv u := fun h => absurd h.2 (by decide)
  have haddr : sampleJit.entryAddress u = 8 := by decide +kernel
  obtain ⟨s, c, hs, hr, hinv, hc⟩ := sample_sysreq (X := X) (p := 33199) (x := 33201) hu
    (by decide) hno haddr (by simp) (below_bytes (by decide) (by decide))
  have hpc : sampleJit.native 8 = some s.pc := by
    rw [hs.pc]
    decide +kernel
  have hebx : s.ebx = 0x18000 := hs.inFrame.ebx
  have hstk : s.esp - s.ebx = 248 := by
    rw [hs.esp, hebx]
    decide
  have hsaved : SavedAt 12 s c.vars.amx := by
    have h := hc.saved (s := s) rfl (BitVec.sub_add_cancel _ _) rfl rfl
    have hcip : getANXAddressByJITInstrPtr sampleJit.instrTable
        (((s.mem.write32 (s.esp - 4) s.eax).write32 (s.esp - 8) 33201).read32 (s.esp - 8)) = 12 := by
      rw [read32_write32_self]
      decide +kernel
    exact ⟨h.cip.trans hcip, h.frm, h.stk⟩
  refine ⟨hu, s, c, hr, hpc, hinv, hc.calling, hsaved, hstk, ?_, ?_⟩
  · rw [hc.calling.esp]
    decide
  · have hframe : c.vars.amx = { s.vars.amx with
        cip := c.vars.amx.cip, frm := c.vars.amx.frm, stk := c.vars.amx.stk } := by
      rw [hc.vars]
      rfl
    have hfrm : u.vars.amx.frm + dataBase u.vars - 0x18000 = sampleProgram.amx.frm := by decide
    rw [hframe, hsaved.cip, hsaved.frm, hsaved.stk, hstk, hs.ebp, hebx, hfrm, hs.vars]
    rfl

/-- the callback calls `Exec(index, NULL)`, as a function at the address -1 -/
def nestedEntry (index : Word) (c : Machine) : Machine :=
  { c with
    esp := 0x170000
    mem := ((c.mem.write32 0x170000 (-1)).write32 0x170004 index).write32 0x170008 0
    pc := (sampleJit.image.addr .exec).getD 0 }

theorem nestedEntry_index (index : Word) (c : Machine) :
    (nestedEntry index c).mem.read32 0x170004 = index := by
  show (Mem.write32 _ _ _).read32 0x170004 = _
  rw [read32_write32_sep _ _ _ _ (by decide), read32_write32_self]

/-- The state `c` in which the sample's `main` calls the callback, as far as its calls of `Exec` need
it -/
structure AtCallback (c : Machine) : Prop where
  esp : c.esp = 0x17ff9c
  base : dataBase c.vars = 0x18000
  rib : c.vars.rib.amx = c.vars.amxPtr
  amx : c.vars.amx = { sampleProgram.amx with
    cip := 12, stk := 248, error := AMX_ERR_NONE, paramcount := 0 }

theorem AtCallback.entry {c : Machine} (h : AtCallback c) (index : Word) :
    Entry sampleEnv (nestedEntry index c) := by
  have hcb : c.vars.amx.callback = 0xFFFFFF10 := by
    rw [h.amx]
    rfl
  have hdata : c.vars.amx.data = 0x18000 := by
    rw [h.amx]
    rfl
  have hstk : c.vars.amx.stk = 248 := by
    rw [h.amx]
  refine sample_entry rfl ?_ (.inr rfl) (.inl ?_) h.rib hcb hdata (.inr hstk)
  · show (Mem.write32 _ _ _).read32 0x170000 = _
    rw [read32_write32_sep _ _ _ _ (by decide), read32_write32_sep _ _ _ _ (by decide),
      read32_write32_self]
  · exact read32_write32_self _ _ _

/-- what the callback has pushed is below its frame -/
theorem AtCallback.push {c : Machine} (h : AtCallback c) (index : Word) :
    HostWork (upTo sampleEnv.top (c.esp + 24)) c (nestedEntry index c) ∧
      upTo sampleEnv.top (c.esp + 24) ⊆ upTo sampleEnv.top ((nestedEntry index c).esp + 12) ∧
      (nestedEntry index c).mem.read32 ((nestedEntry index c).esp + 8) = 0 := by
  have hcell {p : Word} (hp : p ∈ [(0x170000 : Word), 0x170004, 0x170008]) :
      Disjoint (bytes p 4) (upTo sampleEnv.top (c.esp + 24)) := by
    rw [h.esp]
    simp only [List.mem_cons, List.not_mem_nil, or_false] at hp
    rcases hp with rfl | rfl | rfl <;> exact bytes_disjoint (by decide) (by decide)
  refine ⟨⟨rfl, rfl, rfl, rfl, rfl, rfl, ?_⟩, ?_, read32_write32_self _ _ _⟩
  · refine (eqOn_write _ (hcell (by simp))).trans ?_
    exact (eqOn_write _ (hcell (by simp))).trans (eqOn_write _ (hcell (by simp)))
  · rw [h.esp]
    show upTo sampleEnv.top (0x17ff9c + 24) ⊆ upTo sampleEnv.top 0x17000c
    exact bytes_bytes (by decide)

/-- the nested call starts a function -/
theorem AtCallback.starts {c : Machine} (h : AtCallback c) (index address : Word)
    (hi : index ≠ AMX_EXEC_CONT) (haddr : sampleJit.amx.getPublicAddress index = address) :
    check (nestedEntry index c).vars.amx = none ∧ ¬ Continues sampleEnv (nestedEntry index c) ∧
      sampleJit.entryAddress (nestedEntry index c) = address ∧
      startEsp (nestedEntry index c) = 0x180f4 := by
  have hindex : (nestedEntry index c).mem.read32 ((nestedEntry index c).esp + 4) = index :=
    nestedEntry_index index c
  refine ⟨?_, fun hc => hi (hindex.symm.trans hc.2), ?_, ?_⟩
  · show check c.vars.amx = none
    rw [h.amx]
    decide
  · unfold Jit.entryAddress
    rw [hindex]
    exact haddr
  · show c.vars.amx.stk - 4 + dataBase c.vars = _
    rw [h.base, h.amx]
    decide

/-- a callback that returns 0 -/
def doneCallback (c : Machine) : Machine := { c with eax := 0, esp := c.esp + 4, pc := c.top }

theorem doneCallback_call {X : Machine → Machine → Prop} (c : Machine) :
    HostCall sampleEnv X 24 c (doneCallback c) :=
  ⟨.work (.refl c) ⟨rfl, rfl, rfl, rfl, rfl, rfl, fun _ _ => rfl⟩, rfl, rfl, rfl, rfl, rfl, rfl⟩

/-- `Exec(0, NULL)` runs `SYSREQ.PRI; HALT 0`: it returns 0 and leaves CIP behind the native call. -/
theorem nested_exec {c : Machine} (h : AtCallback c) :
    ∃ w, Exec (level sampleEnv (fun _ => True) 0) (nestedEntry 0 c) w ∧ w.eax = AMX_ERR_NONE ∧
      w.vars.amx.cip = 24 := by
  have hu := h.entry 0
  obtain ⟨hcheck, hno, haddr, hesp⟩ := h.starts 0 20 (by decide) (by decide +kernel)
  have hroom : sampleEnv.AmxRoom (startEsp (nestedEntry 0 c) - 4) := by
    rw [hesp]
    exact below_bytes (by decide) (by decide)
  obtain ⟨s, d, hs, hr, hinv, hd⟩ := sample_sysreq (X := fun _ _ => False) (p := 33203) (x := 33205)
    hu hcheck hno haddr (by simp) hroom
  have hstep : Step sampleEnv (fun _ _ => False) d (doneCallback d) :=
    .callback hd.calling.pc (doneCallback_call d)
  have hi : (⟨20, .sysreqPri, []⟩ : Instruction) ∈ sampleJit.instrs := by
    rw [sampleJit_instrs]
    simp
  have hj : (⟨24, .halt, [0]⟩ : Instruction) ∈ sampleJit.instrs := by
    rw [sampleJit_instrs]
    simp
  have hX : ∀ u v, Entry sampleEnv u → False → Returned sampleEnv u v := fun _ _ _ h => h.elim
  have hpc : sampleJit.native 20 = some s.pc := by
    rw [hs.pc]
    decide +kernel
  obtain ⟨hframe, v, ret, a, hentered, hret, -, hnext⟩ := invokes_entered hX hu hr hi rfl rfl hpc hinv
  obtain ⟨r, hdr, -, hr'⟩ :=
    (until_behind hX hu hframe hentered hret hnext hstep rfl).run
  have hrun : Relation.ReflTransGen (Step sampleEnv fun _ _ => False) (nestedEntry 0 c) r :=
    ((hr.trans hinv.reach).tail hstep).trans hdr
  have hrpc : sampleJit.native 24 = some r.pc := by
    obtain ⟨p, hp, h⟩ := hr'.pc _ hj rfl
    rcases h with h | ⟨h, -⟩
    · rw [h]
      exact hp
    · exact absurd h (by decide)
  have hroom' : sampleEnv.AmxRoom r.esp := by
    rw [hr'.stk, hs.esp]
    exact hroom
  obtain ⟨w, hw, hwpc⟩ := sample_halt (X := fun _ _ => False) hu
    (spot_script hX hu hrun (sampleJit.inScript_native hrpc)) hj rfl hrpc hroom'
  obtain ⟨ret', hpush⟩ := Jit.pushes_halt hj rfl
  have hend : Ended sampleEnv (level sampleEnv (fun _ => True) 0) (nestedEntry 0 c)
      (.halt (Instruction.operand ⟨24, .halt, [0]⟩) ret') r := .halt hrun hj rfl hrpc hpush
  have hleft := ended_left hu hend hw hwpc
  refine ⟨w, ⟨hrun.trans hw, hwpc⟩, hleft.eax, ?_⟩
  rw [hleft.amx]
  show r.vars.amx.cip = 24
  rw [hr'.vars]
  have hsaved := hd.saved (s := s) rfl (BitVec.sub_add_cancel _ _) rfl rfl
  refine hsaved.cip.trans ?_
  show getANXAddressByJITInstrPtr sampleJit.instrTable (Mem.read32 _ (s.esp - 8)) = 24
  rw [read32_write32_self]
  decide +kernel

theorem startVars_stk (u : Machine) : (startVars u).amx.stk = u.vars.amx.stk := rfl

/-- `Exec(3, NULL)` runs `PROC; RET`: it calls no native, and `amx->stk` stays. -/
theorem nested_returns {c : Machine} (h : AtCallback c) :
    ∃ w, Returns sampleEnv (level sampleEnv (fun _ => True) 0) 248 (nestedEntry 3 c) w := by
  have hu := h.entry 3
  obtain ⟨hcheck, hno, haddr, hesp⟩ := h.starts 3 40 (by decide) (by decide +kernel)
  obtain ⟨q, hq, hpcq, hback, hespq, hvarsq⟩ := sample_proc (X := fun _ _ => False) hu hcheck hno haddr
    (by rw [hesp]; exact below_bytes (by decide) (by decide))
  obtain ⟨w, s, hw, hin, hstep, hcall, -, -⟩ := sample_ret (X := fun _ _ => False) hpcq hback
  obtain ⟨-, v, hv, hpcv⟩ := return_run (fun _ _ _ h => h.elim) hu ((Before.reach hq).trans hw) hin hstep
    hcall
  have hj : (⟨44, .ret, []⟩ : Instruction) ∈ sampleJit.instrs := by
    rw [sampleJit_instrs]
    simp
  have h44 : sampleJit.native 44 = some q.pc := by
    rw [hpcq]
    decide +kernel
  refine ⟨v, q, ⟨44, .ret, []⟩, hq, hj, .inl rfl, h44, hback, ?_, (hw.tail hstep).trans hv, hpcv⟩
  · have hop : (⟨44, .ret, []⟩ : Instruction).opcode ≠ .retn := by simp
    have hstk : c.vars.amx.stk = 248 := by
      rw [h.amx]
    have hq248 : q.vars.amx.stk = (nestedEntry 3 c).vars.amx.stk := by
      rw [hvarsq, startVars_stk]
    exact (if_neg hop).trans (hq248.trans hstk)

/-- what the callback leaves of a nested call: the error, and the registers it has to give back -/
def sleepAfter (c w : Machine) : Machine :=
  { w with
    eax := AMX_ERR_SLEEP, ecx := c.mem.read32 (c.esp + 12), esp := c.esp + 4, ebx := c.ebx
    ebp := c.ebp, esi := c.esi, edi := c.edi
    vars := { w.vars with amx := { w.vars.amx with error := AMX_ERR_SLEEP } }, pc := c.top }

/-- The callback runs a public function that calls a native itself, and then sleeps: CIP is left in
that function. -/
theorem sleep_fields_nested :
    let u := sampleEntry AMX_EXEC_MAIN 0 sampleProgram.amx
    let R := level sampleEnv (fun _ => True) 1
    Entry sampleEnv u ∧ ∃ s c w t v : Machine, Relation.ReflTransGen R u s ∧
      sampleJit.native 8 = some s.pc ∧ Invokes sampleEnv R .callback s c ∧
      Exec (level sampleEnv (fun _ => True) 0) (nestedEntry 0 c) w ∧ w.eax = AMX_ERR_NONE ∧
      R c t ∧ t.vars.amx = { w.vars.amx with error := AMX_ERR_SLEEP } ∧
      Callee.callback.error t = AMX_ERR_SLEEP ∧
      Relation.ReflTransGen R t v ∧ v.pc = u.top ∧ v.eax = AMX_ERR_SLEEP ∧
      ¬ Asleep ⟨8, .sysreqPri, []⟩ s (Callee.callback.result c t) v.vars.amx := by
  intro u R
  obtain ⟨hu, s, c, hr, hpc, hinv, hc, -, -, hesp, hamx⟩ :=
    sample_request fun u v => True ∧ Exec (level sampleEnv (fun _ => True) 0) u v
  have hcb : AtCallback c := ⟨hesp, hc.inFrame.base, hc.inFrame.amx, hamx⟩
  obtain ⟨w, hw, heax, hcip⟩ := nested_exec hcb
  obtain ⟨hpush, hkeep, hret⟩ := hcb.push 0
  have hcall : HostCall sampleEnv (fun u v => True ∧ Exec (level sampleEnv (fun _ => True) 0) u v) 24 c
      (sleepAfter c w) := by
    refine ⟨.work (.exec (.work (.refl c) hpush) (hcb.entry 0) hkeep (.inl hret) ⟨trivial, hw⟩) ?_,
      rfl, rfl, rfl, rfl, rfl, rfl⟩
    exact ⟨rfl, rfl, rfl, rfl, rfl, rfl, fun _ _ => rfl⟩
  have hstep : R c (sleepAfter c w) := .callback hc.pc hcall
  obtain ⟨v, hv, hvpc⟩ := sleep_run (fun u v hu hx => level_returned _ 0 u v hu hx.2) hu hc hstep
    ⟨rfl, rfl⟩
  have hend : Ended sampleEnv R u (.callee .callback) (sleepAfter c w) :=
    .callee .callback (hr.trans hinv.reach) hc.pc hstep
      (show AMX_ERR_SLEEP ≠ AMX_ERR_NONE by decide)
  have hleft := ended_left hu hend hv hvpc
  refine ⟨hu, s, c, w, _, v, hr, hpc, hinv, hw, heax, hstep, rfl, rfl, hv, hvpc, ?_, fun h => ?_⟩
  · rw [hleft.eax, Ending.amx_sleep ⟨rfl, rfl⟩]
    rfl
  · have hcip' := h.cip
    rw [hleft.amx, Ending.amx_sleep ⟨rfl, rfl⟩] at hcip'
    have h24 : (24 : Word) = 12 := hcip.symm.trans hcip'
    exact absurd h24 (by decide)

/-- The callback runs a public function that calls no native, and then sleeps. -/
theorem sleep_fields_quiet :
    let u := sampleEntry AMX_EXEC_MAIN 0 sampleProgram.amx
    let R := level sampleEnv (fun _ => True) 1
    ∃ s c w t v : Machine, Invokes sampleEnv R .callback s c ∧
      Exec (level sampleEnv (fun _ => True) 0) (nestedEntry 3 c) w ∧ R c t ∧
      Relation.ReflTransGen R u v ∧ v.pc = u.top ∧
      Asleep ⟨8, .sysreqPri, []⟩ s (Callee.callback.result c t) v.vars.amx := by
  intro u R
  obtain ⟨hu, s, c, hr, hpc, hinv, hc, hsaved, hstk, hesp, hamx⟩ :=
    sample_request fun u v => True ∧ Exec (level sampleEnv (fun _ => True) 0) u v
  have hcb : AtCallback c := ⟨hesp, hc.inFrame.base, hc.inFrame.amx, hamx⟩
  obtain ⟨w, hw⟩ := nested_returns hcb
  obtain ⟨hpush, hkeep, hret⟩ := hcb.push 3
  have hrun : QuietRun sampleEnv (fun _ => True) 0 (upTo sampleEnv.top (c.esp + 24)) 248 c
      (sleepAfter c w) := by
    refine .work (.exec .refl hpush rfl rfl (hcb.entry 3) hkeep (.inl hret) trivial hw) ?_ rfl rfl rfl
    exact ⟨rfl, rfl, rfl, rfl, rfl, rfl, fun _ _ => rfl⟩
  have hstep : R c (sleepAfter c w) :=
    .callback hc.pc ⟨hrun.hostRun, rfl, rfl, rfl, rfl, rfl, rfl⟩
  obtain ⟨v, hv, hvpc⟩ := sleep_run (fun u v hu hx => level_returned _ 0 u v hu hx.2) hu hc hstep
    ⟨rfl, rfl⟩
  rw [← hstk] at hrun
  obtain ⟨ret, hpushes, hiff⟩ := sleep_fields_kept sampleEnv (fun _ => True) 0 u s c _ v hu hr
    ⟨8, .sysreqPri, []⟩ sampleJit_call rfl rfl hpc .callback hinv hstep hrun rfl rfl hv hvpc
  have hcip : getANXAddressByJITInstrPtr sampleJit.instrTable ret = 12 := by
    obtain rfl : (33201 : Word) = ret := sampleJit.pushes_inj sample_pushes hpushes
    decide +kernel
  exact ⟨s, c, w, _, v, hinv, hw.exec, hstep, (hr.trans hinv.reach).trans (.head hstep hv), hvpc,
    hiff.mpr ⟨hcip, .inr rfl⟩⟩

end Env

end AmxJit
