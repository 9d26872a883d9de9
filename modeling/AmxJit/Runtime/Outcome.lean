import AmxJit.Compiler.Suspension
import AmxJit.Runtime.Nesting

/-!
# How a run of `Exec` ends

* `Leads env X u Q s`   every run from `s` to the return of `Exec`, entered in the state `u`, ends
                        with `Q`; `leads_script`, `leads_code` are its rules for the script;
* `Invokes`             the first host function that a run comes to;
* `Ending`, `Ended`     the ways in which the script ends: the entry function returns, `HALT`,
                        `BOUNDS`, or a callee with an error;
* `Left`                what is left of it when `Exec` has returned;
* `ended_left`          so it is for every ending.
-/

set_option linter.constructorNameAsVariable false

namespace AmxJit
open X86 Trans Reg

theorem Jit.haltHelper_addr (jit : Jit) : ∃ a, jit.image.addr .haltHelper = some a := by
  obtain ⟨a, e, h⟩ := jit.part (jit.infix_runtime (by simp [Jit.parts])
    (List.infix_refl (emitHaltHelper jit.compiler)))
  unfold emitHaltHelper at h
  simp only [List.append_assoc] at h
  exact ⟨a, (seg_label.mp h).1⟩

theorem Jit.pushes_halt {jit : Jit} {i : Instruction} (hi : i ∈ jit.instrs) (hop : i.opcode = .halt) :
    ∃ ret, jit.Pushes i ret := by
  obtain ⟨b, a, e, hb, ha, hseg, -⟩ := Jit.code_seg hi
  have hb' := hb
  unfold compileInstr controlCode at hb'
  rw [hop] at hb'
  cases (show some (emitHalt i.operand) = some b from hb')
  obtain ⟨x, hs, n, hcall, -⟩ := seg_append.mp hseg
  exact ⟨n, _, a, x, .haltHelper, by decide, hb, ha, hs, hcall⟩

namespace Env
variable {env : Env} {X : Machine → Machine → Prop} {Q : Machine → Prop} {u s t v : Machine}
  {k : Mode}

/-! ## runs to the return -/

def Leads (env : Env) (X : Machine → Machine → Prop) (u : Machine) (Q : Machine → Prop)
    (s : Machine) : Prop :=
  Ends (Step env X) (fun v => v.pc = u.top) Q s

theorem leads_until {p : Machine → Prop} (hu : env.Entry u) (h : Until (Step env X) env.Plain p s)
    (hP : ∀ t, p t → Leads env X u Q t) : Leads env X u Q s := by
  refine (h.imp hP).leads fun t ht hpc => ht.host (.inr (.inr ?_))
  rw [hpc]
  exact hu.ret

/-- the end of a run -/
theorem terminal_top (hret : env.HostAddr u.top) (hpc : s.pc = u.top) : Terminal (Step env X) s := by
  intro t
  refine no_step ?_
  rw [hpc]
  exact hret

theorem leads_now (hu : env.Entry u) (hpc : s.pc = u.top) (h : Q s) : Leads env X u Q s :=
  .now (terminal_top hu.ret hpc) fun _ => h

/-- one instruction of the script -/
theorem ends_script {R : Machine → Machine → Prop} {T : Machine → Prop}
    {i : Instr Cell Label} {n : Word} (hR : ∀ a b, R a b → Step env X a b)
    (hT : ∀ a, env.jit.InScript a.pc → ¬ T a) (hu : env.Entry u) (hs : InFrame env u k s)
    (hin : env.jit.InScript s.pc) (hf : env.jit.image.fetch s.pc = some (i, n))
    (hstep : step env.jit.image.addr i n s = some t)
    (h : InFrame env u k t → ScriptStep env s t → Ends R T Q t) : Ends R T Q s := by
  refine .step (hT s hin) fun t' ht' => ?_
  obtain ⟨-, i', n', hf', hstep'⟩ := step_script hin (hR _ _ ht')
  rw [hf] at hf'
  cases hf'
  rw [hstep] at hstep'
  cases hstep'
  obtain ⟨hframe, hss⟩ := hs.script hu hin (hR _ _ ht')
  exact h hframe hss

theorem leads_script {i : Instr Cell Label} {n : Word} (hu : env.Entry u) (hs : InFrame env u k s)
    (hin : env.jit.InScript s.pc) (hf : env.jit.image.fetch s.pc = some (i, n))
    (hstep : step env.jit.image.addr i n s = some t)
    (h : InFrame env u k t → ScriptStep env s t → Leads env X u Q t) : Leads env X u Q s := by
  refine ends_script (fun _ _ => id) (fun a ha hpc => ?_) hu hs hin hf hstep h
  rw [hpc] at ha
  exact env.jit.not_inScript hu.ret.1 ha

/-- a straight line of the script -/
theorem leads_code {is : Code} {e : Word} (hu : env.Entry u) (hs : InFrame env u k s)
    (hin : env.jit.InScript s.pc)
    (hseg : Seg env.jit.image.fetch env.jit.image.addr s.pc (asm is) e)
    (hrun : runSeq env.jit.image.addr is s = some t)
    (h : InFrame env u k { t with pc := e } → env.jit.InScript e →
      Leads env X u Q { t with pc := e }) : Leads env X u Q s := by
  induction is generalizing s t with
  | nil =>
    obtain rfl : s.pc = e := hseg
    cases hrun
    exact h hs hin
  | cons i is ih =>
    obtain ⟨c, hf, hseg⟩ := hseg
    rw [runSeq_cons] at hrun
    obtain ⟨s', hs', hrun⟩ := Option.bind_eq_some_iff.mp hrun
    refine leads_script hu hs hin hf (step_of_exec _ hs' c) fun hframe _ => ?_
    refine ih (t := { t with pc := c }) hframe (env.jit.inScript_next hin hf) hseg ?_ h
    rw [runSeq_pc, hrun]
    rfl

/-! ## where a run is -/

theorem inFrame_of_until (hu : env.Entry u) (h : Until (Step env X) env.Plain (Spot env u) s)
    (hpc : env.jit.InScript s.pc) : InFrame env u (env.mode u) s := by
  cases spot_of_until h fun hp => hp.script hpc with
  | script h _ => exact h
  | calling f h => exact h.inFrame
  | halting n h _ _ => exact h
  | lost h0 =>
    rw [h0] at hpc
    exact absurd hpc (env.jit.not_inScript env.null.1)
  | returned h =>
    rw [h.pc] at hpc
    exact absurd hpc (env.jit.not_inScript hu.ret.1)

theorem spot_script (hX : ∀ u v, Entry env u → X u v → Returned env u v) (hu : env.Entry u)
    (hr : Relation.ReflTransGen (Step env X) u s) (hpc : env.jit.InScript s.pc) :
    InFrame env u (env.mode u) s := inFrame_of_until hu (until_spot hX hu hr) hpc

/-- from a state of the script to another -/
theorem InFrame.reach (hX : ∀ u v, Entry env u → X u v → Returned env u v) (hu : env.Entry u)
    (hs : InFrame env u (env.mode u) s) (hin : env.jit.InScript s.pc)
    (hr : Relation.ReflTransGen (Step env X) s t) (hpc : env.jit.InScript t.pc) :
    InFrame env u (env.mode u) t := by
  have hspot : Until (Step env X) env.Plain (Spot env u) s := .now (.script hs hin)
  exact inFrame_of_until hu (hspot.invariant (fun _ _ ha hab => spot_step hX hu ha hab) hr) hpc

theorem hostPc_callee {pc : Word} {f : Callee} (h : env.CalleePc pc f) : env.HostPc pc := by
  cases f with
  | callback => exact .inl h
  | native => exact .inr (.inl h)

/-- The callee `f` is the first host function that a run from `s` comes to, in the state `c`. -/
def Invokes (env : Env) (R : Machine → Machine → Prop) (f : Callee) (s c : Machine) : Prop :=
  Relation.ReflTransGen (Before (fun a => env.HostPc a.pc) R) s c ∧ env.CalleePc c.pc f

theorem Invokes.reach {R : Machine → Machine → Prop} {c : Machine} {f : Callee}
    (h : Invokes env R f s c) : Relation.ReflTransGen R s c := Before.reach h.1

theorem not_callee {pc : Word} {f : Callee} (h : env.CalleePc pc f) : ¬ env.HostAddr pc := by
  intro ha
  cases f with
  | callback => exact ha.2.1 h
  | native => exact ha.2.2.1 h

theorem spot_calling {f : Callee} (hX : ∀ u v, Entry env u → X u v → Returned env u v)
    (hu : env.Entry u) (hr : Relation.ReflTransGen (Step env X) u s) (hpc : env.CalleePc s.pc f) :
    Calling env u (env.mode u) f s := by
  have hhost := hostPc_callee hpc
  have hout := env.outside_of_hostPc hhost
  cases spot_of_until (until_spot hX hu hr) fun hp => hp.host hhost with
  | script _ hin => exact absurd hin (env.jit.not_inScript hout)
  | calling g h =>
    have hpc' := h.pc
    cases f with
    | callback =>
      cases g with
      | callback => exact h
      | native => exact absurd hpc (env.natives_ne _ hpc').1
    | native =>
      cases g with
      | callback => exact absurd hpc' (env.natives_ne _ hpc).1
      | native => exact h
  | halting n _ hf _ => exact absurd hout (env.jit.runtimeFetch_inside hf).2
  | lost h0 =>
    rw [h0] at hpc
    exact absurd hostAddr_zero (not_callee hpc)
  | returned h =>
    rw [h.pc] at hpc
    exact absurd hu.ret (not_callee hpc)

end Env

/-! ## endings -/

/-- How the script ends: the entry function returns; `HALT` with its error, and with the return
address of its helper call; a failed `BOUNDS`; a callee with an error. -/
inductive Ending where
  | return'
  | halt (error ret : Word)
  | bounds
  | callee (f : Callee)

/-- the AMX structure after an abort -/
def abortAmx (error : Word) (s : Machine) : Amx := { syncAmx s s.vars.amx with error := error }

namespace Ending

/-- the machine at the end, on the AMX stack; `p` is the native stack pointer of the helpers -/
def machine (p : Word) (s : Machine) : Ending → Machine
  | .callee f => f.resumed p s
  | _ => s

/-- the AMX structure that is left, but for the error -/
def amx (jit : Jit) (p : Word) (s : Machine) : Ending → Amx
  | .return' => Env.returnAmx jit.compiler s
  | .halt error ret =>
    if jit.compiler.enableSleep = true ∧ error = AMX_ERR_SLEEP then
      { abortAmx error s with
        cip := getANXAddressByJITInstrPtr jit.instrTable ret
        resetStk := s.vars.rib.resetStk, resetHea := s.vars.rib.resetHea }
    else abortAmx error s
  | .bounds => abortAmx AMX_ERR_BOUNDS s
  | .callee f =>
    let r := f.resumed p s
    if jit.HaltSleeps r then sleepAmx r else abortAmx r.edi r

theorem amx_sleep {jit : Jit} {p : Word} {s : Machine} {f : Callee}
    (h : jit.HaltSleeps (f.resumed p s)) :
    (callee f).amx jit p s = sleepAmx (f.resumed p s) := if_pos h

theorem amx_abort {jit : Jit} {p : Word} {s : Machine} {f : Callee}
    (h : ¬ jit.HaltSleeps (f.resumed p s)) :
    (callee f).amx jit p s = abortAmx (f.error s) (f.resumed p s) := if_neg h

/-- what is stored through `retval` -/
def retval (jit : Jit) (s : Machine) : Ending → Word
  | .halt error ret =>
    if jit.compiler.enableSleep = true ∧ error = AMX_ERR_SLEEP then
      getANXAddressByJITInstrPtr jit.instrTable ret
    else s.eax
  | .callee f => f.pri s
  | _ => s.eax

end Ending

namespace Env
variable (env : Env)

/-- A run of `Exec`, entered in the state `u`, comes to the end of the script in the state `s`: the
state in which the entry function or the callee has returned, or that before `HALT` or `BOUNDS`. -/
inductive Ended (R : Machine → Machine → Prop) (u : Machine) : Ending → Machine → Prop where
  | return' {s t : Machine} : Relation.ReflTransGen R u s → env.jit.InScript s.pc → R s t →
      env.jit.image.addr .callReturn = some t.pc → Ended R u .return' t
  | halt {s : Machine} {i : Instruction} {ret : Word} : Relation.ReflTransGen R u s →
      i ∈ env.jit.instrs → i.opcode = .halt → env.jit.native i.address = some s.pc →
      env.jit.Pushes i ret → Ended R u (.halt i.operand ret) s
  | bounds {s : Machine} {i : Instruction} : Relation.ReflTransGen R u s →
      i ∈ env.jit.instrs → i.opcode = .bounds → env.jit.native i.address = some s.pc →
      i.operand.toInt < s.eax.toInt ∨ s.eax.toInt < 0 → Ended R u .bounds s
  | callee {s t : Machine} (f : Callee) : Relation.ReflTransGen R u s → env.CalleePc s.pc f →
      R s t → f.error t ≠ AMX_ERR_NONE → Ended R u (.callee f) t

/-- `Exec`, entered in the state `u`, has returned in the state `v` after the script has ended in the
state `s`. -/
structure Left (u : Machine) (e : Ending) (s v : Machine) : Prop where
  pc : v.pc = u.top
  eax : v.eax = (e.amx env.jit (u.esp - (env.mode u).depth) s).error
  retval : u.mem.read32 (u.esp + 8) ≠ 0 →
    v.mem.read32 (u.mem.read32 (u.esp + 8)) = e.retval env.jit s
  amx : v.vars.amx =
    { e.amx env.jit (u.esp - (env.mode u).depth) s with error := AMX_ERR_NONE }
  mem : Set.EqOn v.mem s.mem (below (e.machine (u.esp - (env.mode u).depth) s).esp env.need ∪
    below u.esp env.need ∪ retCell u)ᶜ

variable {env} {X : Machine → Machine → Prop} {Q : Machine → Prop} {u s t v : Machine}
  {k : Mode} {e : Ending}

theorem Ended.reach {R : Machine → Machine → Prop} (h : Ended env R u e s) :
    Relation.ReflTransGen R u s := by
  cases h with
  | return' h _ hst _ => exact h.tail hst
  | halt h _ _ _ _ => exact h
  | bounds h _ _ _ _ => exact h
  | callee f h _ hst _ => exact h.tail hst

theorem left_finished {m : Mem} (fl : Flags) (heax : t.eax = e.retval env.jit s)
    (hamx : t.vars.amx = e.amx env.jit (u.esp - (env.mode u).depth) s)
    (hm : Set.EqOn m s.mem (below (e.machine (u.esp - (env.mode u).depth) s).esp env.need ∪
      below u.esp env.need)ᶜ) : Left env u e s (finished u t m fl) where
  pc := rfl
  eax := congrArg Amx.error hamx
  retval := by
    intro hne
    show (storeRetval u t.eax m).read32 _ = _
    unfold storeRetval
    rw [if_neg hne, read32_write32_self, heax]
  amx := by
    show { t.vars.amx with error := AMX_ERR_NONE } = _
    rw [hamx]
  mem := by
    intro a ha
    simp only [Set.mem_compl_iff, Set.mem_union, not_or] at ha
    obtain ⟨⟨h1, h2⟩, h3⟩ := ha
    have hkeep : storeRetval u t.eax m a = m a := by
      unfold storeRetval
      unfold retCell at h3
      split
      · rfl
      · rename_i hne
        rw [if_neg hne] at h3
        exact write_out _ _ _ _ _ (Nat.le_of_not_lt h3)
    refine hkeep.trans (hm ?_)
    simp only [Set.mem_compl_iff, Set.mem_union, not_or]
    exact ⟨h1, h2⟩

/-- the part of the native stack that the way out uses -/
theorem exit_below (k : Mode) :
    below (u.esp - k.depth + 16) (env.window + 32) ⊆ below u.esp env.need := by
  have hw := env.window_le
  have hneed : env.need = env.window + 256 := rfl
  have he : u.esp - k.depth + 16 = u.esp - (k.depth - 16) := by abel
  have hd : (k.depth - 16).toNat ≤ 48 := by
    cases k <;> decide
  rw [he, ← ofNat_toNat (k.depth - 16)]
  exact below_below (by omega) (by omega)

/-- from the first instruction of `HaltHelper` to the return -/
theorem halt_left (hu : env.Entry u) (hs : InFrame env u (env.mode u) t)
    (hpc : env.jit.image.addr .haltHelper = some t.pc) (hroom : env.AmxRoom (t.esp + 4))
    (hretval : env.jit.haltPri t = e.retval env.jit s)
    (hamx : env.jit.haltAmx t = e.amx env.jit (u.esp - (env.mode u).depth) s)
    (hesp : t.esp + 4 = (e.machine (u.esp - (env.mode u).depth) s).esp)
    (hm : Set.EqOn t.mem s.mem (below (t.esp + 4) env.need)ᶜ) :
    Until (Step env X) env.Plain (Left env u e s) t := by
  refine until_halt (env.drives X) hu hs hpc hroom fun m fl y hm' => .now ?_
  refine left_finished fl hretval hamx ?_
  rw [← hesp]
  refine (hm'.mono (Set.compl_subset_compl.mpr ?_)).trans
    (hm.mono (Set.compl_subset_compl.mpr Set.subset_union_left))
  exact Set.union_subset_union_right _ (exit_below _)

/-- from the call of `HaltHelper` -/
theorem called_left {n ret a : Word} (fl : Flags) (hu : env.Entry u)
    (hs : InFrame env u (env.mode u) { s with
      edi := n, esp := s.esp - 4, flags := fl, mem := s.mem.write32 (s.esp - 4) ret, pc := a })
    (ha : env.jit.image.addr .haltHelper = some a) (hroom : env.AmxRoom s.esp)
    (hretval : (Ending.halt n ret).retval env.jit s = e.retval env.jit s)
    (hamx : (Ending.halt n ret).amx env.jit 0 s = e.amx env.jit (u.esp - (env.mode u).depth) s)
    (hmachine : e.machine (u.esp - (env.mode u).depth) s = s) :
    Until (Step env X) env.Plain (Left env u e s) { s with
      edi := n, esp := s.esp - 4, flags := fl, mem := s.mem.write32 (s.esp - 4) ret, pc := a } := by
  have hpop : s.esp - 4 + 4 = s.esp := BitVec.sub_add_cancel _ _
  have htop : (s.mem.write32 (s.esp - 4) ret).read32 (s.esp - 4) = ret := read32_write32_self _ _ _
  refine halt_left hu hs ha ?_ ?_ ?_ ?_ ?_
  · show env.AmxRoom (s.esp - 4 + 4)
    rw [hpop]
    exact hroom
  · rw [← hretval]
    unfold Jit.haltPri Jit.returnCip State.top Ending.retval
    dsimp only
    rw [htop]
    exact if_congr Iff.rfl rfl rfl
  · rw [← hamx]
    unfold Jit.haltAmx Jit.returnCip State.top Ending.amx haltSynced abortAmx syncAmx
    dsimp only
    rw [htop, hpop]
    exact if_congr Iff.rfl rfl rfl
  · rw [hmachine]
    exact hpop
  · show Set.EqOn (s.mem.write32 (s.esp - 4) ret) s.mem (below (s.esp - 4 + 4) env.need)ᶜ
    rw [hpop]
    refine eqOn_write ret (Set.disjoint_compl_right_iff_subset.mpr ?_)
    exact bytes_below (i := 4) (le_refl 4) (by
      unfold need
      omega)

/-- the call of `HaltHelper` by `HALT` and `BOUNDS` -/
theorem leads_emitHalt {n ret x y : Word} (hu : env.Entry u) (hs : InFrame env u (env.mode u) s)
    (fl : Flags) (hin : env.jit.InScript x)
    (hseg : Seg env.jit.image.fetch env.jit.image.addr x (asm [.mov edi n]) y)
    (hcall : env.jit.image.fetch y = some (.call .haltHelper, ret))
    (hretval : (Ending.halt n ret).retval env.jit s = e.retval env.jit s)
    (hamx : (Ending.halt n ret).amx env.jit 0 s = e.amx env.jit (u.esp - (env.mode u).depth) s)
    (hmachine : e.machine (u.esp - (env.mode u).depth) s = s) :
    Leads env X u (Left env u e s) { s with flags := fl, pc := x } := by
  obtain ⟨a, ha⟩ := env.jit.haltHelper_addr
  have hframe : InFrame env u (env.mode u) { s with flags := fl, pc := x } :=
    hs.congr hu (fun _ _ => rfl) rfl rfl rfl rfl rfl rfl rfl
  refine leads_code (t := { s with edi := n, flags := fl, pc := x }) hu hframe hin hseg rfl
    fun hframe hin' => ?_
  have hstep : step env.jit.image.addr (.call .haltHelper : Instr Cell Label) ret
      { s with edi := n, flags := fl, pc := y } = some { s with
        edi := n, esp := s.esp - 4, flags := fl, mem := s.mem.write32 (s.esp - 4) ret, pc := a } := by
    show (env.jit.image.addr .haltHelper).map _ = _
    rw [ha]
    rfl
  refine leads_script hu hframe hin' hcall hstep fun hframe hss => ?_
  obtain ⟨-, hroom⟩ := hss.call .haltHelper (by simp [scriptCalls]) ha
  have hpop : s.esp - 4 + 4 = s.esp := BitVec.sub_add_cancel _ _
  have hroom' : env.AmxRoom s.esp := by
    rw [← hpop]
    exact hroom
  exact leads_until hu (called_left fl hu hframe ha hroom' hretval hamx hmachine)
    fun _ hv => leads_now hu hv.pc hv

theorem leads_halted {i : Instruction} {ret : Word} (hu : env.Entry u)
    (hs : InFrame env u (env.mode u) s) (hin : env.jit.InScript s.pc) (hop : i.opcode = .halt)
    (hpc : env.jit.native i.address = some s.pc) (hret : env.jit.Pushes i ret) :
    Leads env X u (Left env u (.halt i.operand ret) s) s := by
  obtain ⟨pre, a, y, l, -, hb, ha, hseg, hf⟩ := hret
  rw [hpc] at ha
  cases ha
  unfold compileInstr controlCode at hb
  rw [hop] at hb
  have hcode : asm [.mov edi i.operand] ++ emit (.call .haltHelper) = asm pre ++ emit (.call l) :=
    Option.some.inj hb
  obtain ⟨h1, h2⟩ := List.append_inj' hcode rfl
  cases h2
  rw [← h1] at hseg
  exact leads_emitHalt hu hs s.flags hin hseg hf rfl rfl rfl

/-- behind straight code -/
theorem inScript_asm {jit : Jit} {is : Code} {a b : Word} (ha : jit.InScript a)
    (h : Seg jit.image.fetch jit.image.addr a (asm is) b) : jit.InScript b := by
  induction is generalizing a with
  | nil =>
    obtain rfl : a = b := h
    exact ha
  | cons i is ih =>
    obtain ⟨c, hf, h⟩ := h
    exact ih (jit.inScript_next ha hf) h

theorem inScript_emit {jit : Jit} {i : Instr Cell Label} {a b : Word} (ha : jit.InScript a)
    (h : Seg jit.image.fetch jit.image.addr a (emit i) b) : jit.InScript b := by
  obtain ⟨c, hf, rfl⟩ := h
  exact jit.inScript_next ha hf

/-- a conditional jump in the script -/
theorem leads_jcc {cond : Cond} {l : Label} {a b : Word} (hu : env.Entry u)
    (hs : InFrame env u k s) (hin : env.jit.InScript s.pc)
    (hseg : Seg env.jit.image.fetch env.jit.image.addr s.pc (emit (.jcc cond l)) b)
    (hl : env.jit.image.addr l = some a)
    (ht : cond.holds s.flags = true → Leads env X u Q { s with pc := a })
    (hn : cond.holds s.flags = false → Leads env X u Q { s with pc := b }) :
    Leads env X u Q s := by
  obtain ⟨n, hf, rfl⟩ := hseg
  cases hc : cond.holds s.flags with
  | true =>
    refine leads_script hu hs hin hf ?_ fun _ _ => ht hc
    show (if cond.holds s.flags then _ else _) = _
    rw [if_pos hc, hl]
    rfl
  | false =>
    refine leads_script hu hs hin hf ?_ fun _ _ => hn hc
    show (if cond.holds s.flags then _ else _) = _
    rw [hc]
    rfl

/-- the code of `BOUNDS`: the two comparisons, and behind them `halt_label`, at `h` -/
theorem bounds_code {i : Instruction} (hi : i ∈ env.jit.instrs) (hop : i.opcode = .bounds)
    (hpc : env.jit.native i.address = some s.pc) :
    ∃ x1 x2 x3 x4 h x6 x7 e, (∀ j ∈ env.jit.instrs, j.address = i.next → env.jit.At j e) ∧
      env.jit.image.addr (.here i.address 0) = some h ∧
      env.jit.image.addr (.here i.address 1) = some e ∧ env.jit.InScript x2 ∧ env.jit.InScript h ∧
      Seg env.jit.image.fetch env.jit.image.addr s.pc (asm [.cmp eax i.operand]) x1 ∧
      Seg env.jit.image.fetch env.jit.image.addr x1 (emit (.jcc .g (.here i.address 0))) x2 ∧
      Seg env.jit.image.fetch env.jit.image.addr x2 (asm [.test eax eax]) x3 ∧
      Seg env.jit.image.fetch env.jit.image.addr x3 (emit (.jcc .l (.here i.address 0))) x4 ∧
      Seg env.jit.image.fetch env.jit.image.addr x4 (emit (.jmp (.here i.address 1))) h ∧
      Seg env.jit.image.fetch env.jit.image.addr h
        (asm (emitDebugBreakpoint env.jit.compiler)) x6 ∧
      Seg env.jit.image.fetch env.jit.image.addr x6 (asm [.mov edi AMX_ERR_BOUNDS]) x7 ∧
      env.jit.image.fetch x7 = some (.call .haltHelper, e) := by
  obtain ⟨b, e, hb, hseg, hnext⟩ := Jit.code_at hi hpc
  unfold compileInstr controlCode at hb
  rw [hop] at hb
  cases (show some (emitBounds env.jit.compiler i.address i.operand) = some b from hb)
  unfold emitBounds at hseg
  simp only [List.append_assoc] at hseg
  obtain ⟨x1, hs1, hseg⟩ := seg_append.mp hseg
  obtain ⟨x2, hs2, hseg⟩ := seg_append.mp hseg
  obtain ⟨x3, hs3, hseg⟩ := seg_append.mp hseg
  obtain ⟨x4, hs4, hseg⟩ := seg_append.mp hseg
  obtain ⟨x5, hs5, hseg⟩ := seg_append.mp hseg
  obtain ⟨hhalt, hseg⟩ := seg_label.mp hseg
  obtain ⟨x6, hs6, hseg⟩ := seg_append.mp hseg
  obtain ⟨x8, hs7, hs8⟩ := seg_append.mp hseg
  obtain ⟨x7, hmov, n, hcall, hn⟩ := seg_append.mp hs7
  obtain rfl : n = x8 := hn
  obtain ⟨hexit, rfl⟩ := seg_label.mp hs8
  have hin2 := inScript_emit (inScript_asm (env.jit.inScript_native hpc) hs1) hs2
  have hin5 := inScript_emit (inScript_emit (inScript_asm hin2 hs3) hs4) hs5
  exact ⟨x1, x2, x3, x4, x5, x6, x7, n, hnext, hhalt, hexit, hin2, hin5, hs1, hs2, hs3, hs4, hs5, hs6,
    hmov, hcall⟩

theorem leads_bounds {i : Instruction} (hu : env.Entry u) (hs : InFrame env u (env.mode u) s)
    (hi : i ∈ env.jit.instrs) (hop : i.opcode = .bounds)
    (hpc : env.jit.native i.address = some s.pc)
    (hfail : i.operand.toInt < s.eax.toInt ∨ s.eax.toInt < 0) :
    Leads env X u (Left env u .bounds s) s := by
  have hin := env.jit.inScript_native hpc
  obtain ⟨x1, x2, x3, x4, x5, x6, x7, e, -, hhalt, -, hin2, hin5, hs1, hs2, hs3, hs4, -, hs6, hs7,
    hcall⟩ := bounds_code hi hop hpc
  -- from `halt_label`
  have hgo (fl : Flags) : Leads env X u (Left env u .bounds s) { s with flags := fl, pc := x5 } := by
    have hframe : InFrame env u (env.mode u) { s with flags := fl, pc := x5 } :=
      hs.congr hu (fun _ _ => rfl) rfl rfl rfl rfl rfl rfl rfl
    have hbreak : runSeq env.jit.image.addr (emitDebugBreakpoint env.jit.compiler)
        { s with flags := fl, pc := x5 } = some { s with flags := fl, pc := x5 } := by
      unfold emitDebugBreakpoint
      split <;> rfl
    refine leads_code hu hframe hin5 hs6 hbreak fun _ hin6 => ?_
    have hno : ¬ (env.jit.compiler.enableSleep = true ∧ AMX_ERR_BOUNDS = AMX_ERR_SLEEP) :=
      fun h => absurd h.2 (by decide)
    exact leads_emitHalt hu hs fl hin6 hs7 hcall (if_neg hno) (if_neg hno) rfl
  refine leads_code hu hs hin hs1 rfl fun hframe hin1 => ?_
  refine leads_jcc hu hframe hin1 hs2 hhalt (fun _ => hgo _) fun hn => ?_
  have hle : ¬ i.operand.toInt < s.eax.toInt :=
    of_decide_eq_false ((cmp_g s.flags s.eax i.operand).symm.trans hn)
  have hneg : s.eax.toInt < 0 := hfail.resolve_left hle
  refine leads_code hu (hframe.congr hu (fun _ _ => rfl) rfl rfl rfl rfl rfl rfl rfl)
    hin2 hs3 rfl fun hframe hin3 => ?_
  refine leads_jcc hu hframe hin3 hs4 hhalt (fun _ => hgo _) fun hn => ?_
  exact absurd hneg (of_decide_eq_false ((test_l _ s.eax).symm.trans hn))

/-- from the return of the entry function to that of `Exec` -/
theorem return_left (hu : env.Entry u) (hs : InFrame env u (env.mode u) s)
    (hpc : env.jit.image.addr .callReturn = some s.pc) :
    Until (Step env X) env.Plain (Left env u .return' s) s := by
  refine until_callReturn (env.drives X) hu hs hpc fun m fl y hm => .now ?_
  refine left_finished fl rfl rfl (hm.mono (Set.compl_subset_compl.mpr ?_))
  exact (exit_below _).trans Set.subset_union_right

theorem leads_callReturn (hu : env.Entry u) (hs : InFrame env u (env.mode u) s)
    (hpc : env.jit.image.addr .callReturn = some s.pc) :
    Leads env X u (Left env u .return' s) s :=
  leads_until hu (return_left hu hs hpc) fun _ hv => leads_now hu hv.pc hv

/-- the call of `HaltHelper` behind a native call -/
theorem must_callHalt {n : Word} (hu : env.Entry u) (ht : InFrame env u (env.mode u) t)
    (hf : env.jit.runtimeFetch t.pc = some (.call .haltHelper, n)) (hroom : env.AmxRoom t.esp)
    (hno : ¬ env.jit.HaltSleeps t) (hretval : t.eax = e.retval env.jit s)
    (hamx : abortAmx t.edi t = e.amx env.jit (u.esp - (env.mode u).depth) s)
    (hesp : t.esp = (e.machine (u.esp - (env.mode u).depth) s).esp)
    (hm : Set.EqOn t.mem s.mem (below t.esp env.need)ᶜ) : Must (Step env X) (Left env u e s) t := by
  obtain ⟨x, hx⟩ := env.jit.haltHelper_addr
  have hstep : Step env X t { t.push n with pc := x } := by
    refine .runtime hf ?_
    show (env.jit.image.addr .haltHelper).map _ = _
    rw [hx]
    rfl
  refine .next trivial ⟨_, hstep⟩ fun w hw => ?_
  obtain ⟨x', hx', rfl⟩ := step_halting hf hw
  have hpop : t.esp - 4 + 4 = t.esp := BitVec.sub_add_cancel _ _
  have hpush : Set.EqOn (t.mem.write32 (t.esp - 4) n) t.mem (below t.esp env.need)ᶜ := by
    refine eqOn_write n (Set.disjoint_compl_right_iff_subset.mpr ?_)
    exact bytes_below (i := 4) (le_refl 4) (by
      unfold need
      omega)
  have hframe : InFrame env u (env.mode u) { t.push n with pc := x' } :=
    ht.amxWork hu (hpush.mono (Set.compl_subset_compl.mpr hroom)) rfl rfl rfl rfl rfl rfl rfl
  have hleft : Until (Step env X) env.Plain (Left env u e s) { t.push n with pc := x' } := by
    apply halt_left hu hframe hx' ?_ ((if_neg hno).trans hretval) ?_ (hpop.trans hesp) ?_
    · show env.AmxRoom (t.esp - 4 + 4)
      rw [hpop]
      exact hroom
    · refine (if_neg hno).trans (Eq.trans ?_ hamx)
      unfold haltSynced abortAmx syncAmx State.push
      dsimp only
      rw [hpop]
    · show Set.EqOn (t.mem.write32 (t.esp - 4) n) s.mem (below (t.esp - 4 + 4) env.need)ᶜ
      rw [hpop]
      exact hpush.trans hm
  exact hleft.must

/-- a callee has put the script to sleep -/
theorem sleep_left {f : Callee} (hX : ∀ u v, Entry env u → X u v → Returned env u v)
    (hu : env.Entry u) (hc : Calling env u (env.mode u) f s) (h : Step env X s t)
    (hsl : env.jit.HaltSleeps (f.resumed (u.esp - (env.mode u).depth) t)) :
    Until (Step env X) env.Plain (Left env u (.callee f) t) t := by
  obtain ⟨ht, hback, hesp, hroom, -⟩ := hc.behind hu hX h
  set r := f.resumed (u.esp - (env.mode u).depth) t with hr
  refine until_return (env.drives X) hu f ht hback hesp hroom ?_ ?_ ?_
  · intro r' _ m fl hm
    have hm' : Set.EqOn m t.mem (below r.esp env.need ∪ below u.esp env.need)ᶜ :=
      hm.mono (Set.compl_subset_compl.mpr (Set.union_subset_union_right _ (exit_below _)))
    have hl : Left env u (.callee f) t (finished u { r with
        edx := r.vars.amxPtr, vars := { r.vars with amx := sleepAmx r } } m fl) :=
      left_finished (s := t) fl rfl (Ending.amx_sleep hsl).symm hm'
    exact .now hl
  · intro r' hno
    exact absurd hsl hno
  · intro r' hnone
    have h0 : AMX_ERR_SLEEP = AMX_ERR_NONE := hsl.2.symm.trans hnone
    exact absurd h0 (by decide)

/-- **A callee has returned an error**, which does not put the script to sleep. -/
theorem must_error {f : Callee} (hX : ∀ u v, Entry env u → X u v → Returned env u v)
    (hu : env.Entry u) (hc : Calling env u (env.mode u) f s) (h : Step env X s t)
    (herr : f.error t ≠ AMX_ERR_NONE)
    (hno : ¬ env.jit.HaltSleeps (f.resumed (u.esp - (env.mode u).depth) t)) :
    Must (Step env X) (Left env u (.callee f) t) t := by
  obtain ⟨ht, hback, hesp, hroom, -⟩ := hc.behind hu hX h
  set r := f.resumed (u.esp - (env.mode u).depth) t with hr
  have hframe : InFrame env u (env.mode u) r :=
    ht.congr hu (fun _ _ => rfl) rfl rfl rfl rfl rfl rfl rfl
  have hhalt : Until (Step env X) env.Plain (fun w => ∃ (a n : Word) (fl : Flags),
      env.jit.runtimeFetch a = some (.call .haltHelper, n) ∧
      w = { r with flags := fl, pc := a }) t := by
    refine until_return (env.drives X) hu f ht hback hesp hroom ?_ ?_ ?_
    · exact fun hsl => absurd hsl hno
    · exact fun _ _ a n fl hf => .now ⟨a, n, fl, hf, rfl⟩
    · exact fun hnone => absurd hnone herr
  apply hhalt.must.bind
  rintro _ ⟨a, n, fl, hf, rfl⟩
  have hframe' : InFrame env u (env.mode u) { r with flags := fl, pc := a } :=
    hframe.congr hu (fun _ _ => rfl) rfl rfl rfl rfl rfl rfl rfl
  exact must_callHalt (s := t) hu hframe' hf hroom hno rfl (Ending.amx_abort hno).symm rfl
    fun _ _ => rfl

theorem leads_callee {f : Callee} (hX : ∀ u v, Entry env u → X u v → Returned env u v)
    (hu : env.Entry u) (hc : Calling env u (env.mode u) f s) (h : Step env X s t)
    (herr : f.error t ≠ AMX_ERR_NONE) : Leads env X u (Left env u (.callee f) t) t := by
  have hmust : Must (Step env X) (Left env u (.callee f) t) t := by
    by_cases hsl : env.jit.HaltSleeps (f.resumed (u.esp - (env.mode u).depth) t)
    · exact (sleep_left hX hu hc h hsl).must
    · exact must_error hX hu hc h herr hsl
  intro v hr hpc
  exact hmust.ends hr (terminal_top hu.ret hpc) fun w hw => terminal_top hu.ret hw.pc

/-- **What is left after the script has ended**, at any depth of nesting. -/
theorem ended_left {C : Machine → Prop} {n : Nat} (hu : env.Entry u)
    (h : Ended env (level env C n) u e s) (hv : Relation.ReflTransGen (level env C n) s v)
    (hpc : v.pc = u.top) : Left env u e s v := by
  obtain ⟨X, hX, hret⟩ := @level_calls env C n
  rw [hX] at h hv
  suffices hl : Leads env X u (Left env u e s) s from hl v hv hpc
  cases h with
  | return' hr hin hstep haddr =>
    exact leads_callReturn hu ((spot_script hret hu hr hin).script hu hin hstep).1 haddr
  | halt hr hi hop hnat hp =>
    have hin := env.jit.inScript_native hnat
    exact leads_halted hu (spot_script hret hu hr hin) hin hop hnat hp
  | bounds hr hi hop hnat hfail =>
    have hin := env.jit.inScript_native hnat
    exact leads_bounds hu (spot_script hret hu hr hin) hi hop hnat hfail
  | callee f hr hcallee hstep herr =>
    exact leads_callee hret hu (spot_calling hret hu hr hcallee) hstep herr

end Env

end AmxJit
