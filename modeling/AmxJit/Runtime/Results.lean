import AmxJit.Runtime.Existence

/-!
# What `Exec` hands to its caller

* `exec_convention`     the registers and the stack pointer of the caller;
* `exec_error`          the return value and `amx->error`;
* `retval_pri_iff`      the value stored through `retval`;
* `reset_fields_iff`    the runtime information block.
-/

set_option linter.constructorNameAsVariable false

namespace AmxJit
open X86 Trans Reg

namespace Ending

/-- the error code the script ended with -/
def code (s : Machine) : Ending → Word
  | .return' => AMX_ERR_NONE
  | .halt error _ => error
  | .bounds => AMX_ERR_BOUNDS
  | .callee f => f.error s

/-- `amx->error` is not written on the way out: the entry function returns, or the callback puts the
script to sleep. -/
def KeepsError (c : CompilerImpl) (s : Machine) : Ending → Prop
  | .return' => True
  | .callee .callback => c.enableSleep = true ∧ s.eax = AMX_ERR_SLEEP
  | _ => False

theorem error_kept {jit : Jit} {p : Word} {s : Machine} {e : Ending}
    (h : e.KeepsError jit.compiler s) : (e.amx jit p s).error = s.vars.amx.error := by
  cases e with
  | return' =>
    show (Env.returnAmx jit.compiler s).error = _
    unfold Env.returnAmx
    split <;> rfl
  | halt error ret => exact h.elim
  | bounds => exact h.elim
  | callee f =>
    cases f with
    | callback => rw [amx_sleep (f := .callback) h]; rfl
    | native => exact h.elim

theorem error_written {jit : Jit} {p : Word} {s : Machine} {e : Ending}
    (h : ¬ e.KeepsError jit.compiler s) : (e.amx jit p s).error = e.code s := by
  cases e with
  | return' => exact absurd trivial h
  | halt error ret =>
    unfold amx
    dsimp only
    split <;> rfl
  | bounds => rfl
  | callee f =>
    by_cases hsl : jit.HaltSleeps (f.resumed p s)
    · cases f with
      | callback => exact absurd hsl h
      | native => rw [amx_sleep hsl]; rfl
    · rw [amx_abort hsl]
      rfl

/-- PRI at the end; a callback has stored its result at `q` -/
def pri (q : Word) (s : Machine) : Ending → Word
  | .callee .callback => s.mem.read32 q
  | _ => s.eax

/-- PRI is what `HALT` leaves in `eax` when it puts the script to sleep, and what `ecx` points to when
the callback has returned. -/
def KeepsPri (jit : Jit) (q : Word) (s : Machine) : Ending → Prop
  | .halt error ret => jit.compiler.enableSleep = true → error = AMX_ERR_SLEEP →
      getANXAddressByJITInstrPtr jit.instrTable ret = s.eax
  | .callee .callback => s.mem.read32 s.ecx = s.mem.read32 q
  | _ => True

theorem retval_pri {jit : Jit} {q : Word} {s : Machine} {e : Ending} :
    e.retval jit s = e.pri q s ↔ e.KeepsPri jit q s := by
  cases e with
  | return' => exact iff_of_true rfl trivial
  | halt error ret =>
    unfold retval pri KeepsPri
    dsimp only
    split
    · rename_i h
      exact ⟨fun hr _ _ => hr, fun hr => hr h.1 h.2⟩
    · rename_i h
      exact iff_of_true rfl fun h1 h2 => absurd ⟨h1, h2⟩ h
  | bounds => exact iff_of_true rfl trivial
  | callee f =>
    cases f with
    | callback => exact Iff.rfl
    | native => exact iff_of_true rfl trivial

end Ending

/-- the fields of the runtime information block that a nested call of `Exec` writes -/
def RuntimeInfoBlock.saved (r : RuntimeInfoBlock) : List Word :=
  [r.ebp, r.esp, r.amxEbp, r.amxEsp, r.resetEbp, r.resetEsp, r.resetStk, r.resetHea]

namespace Env
variable {env : Env} {C : Machine → Prop} {n : Nat} {u s v : Machine} {e : Ending}

/-- **`Exec` honours the calling convention** on every exit, at any depth of nesting. -/
theorem exec_convention (env : Env) (C : Machine → Prop) (n : Nat) (u v : Machine)
    (hu : Entry env u) (h : Exec (level env C n) u v) :
    v.pc = u.top ∧ v.esp = u.esp + 4 ∧ v.ebx = u.ebx ∧ v.esi = u.esi ∧ v.edi = u.edi ∧
      v.ebp = u.ebp := by
  have hr := level_returned C n u v hu h
  exact ⟨hr.pc, hr.esp, hr.ebx, hr.esi, hr.edi, hr.ebp⟩

theorem exec_convention_halt : ∃ v,
    Exec (level sampleEnv (fun _ => True) 0) (sampleEntry 2 0 sampleProgram.amx) v ∧
      v.esp = 0x180004 ∧ v.ebp = 3 := by
  obtain ⟨v, hv⟩ := sample_exec (fun _ => True) 0
  have h := exec_convention sampleEnv (fun _ => True) 0 (sampleEntry 2 0 sampleProgram.amx) v
    (sampleEntry_entry (.inl rfl) rfl rfl rfl) hv
  exact ⟨v, hv, h.2.1, h.2.2.2.2.2⟩

/-- **`Exec` returns the error code exactly if it is in `amx->error`** where the way out does not
write it, and it does not leave an error behind. -/
theorem exec_error (env : Env) (C : Machine → Prop) (n : Nat) (u v : Machine) (hu : Entry env u)
    (h : Exec (level env C n) u v) :
    (∀ e s, Ended env (level env C n) u e s → Relation.ReflTransGen (level env C n) s v →
      (v.eax = e.code s ↔
        (e.KeepsError env.jit.compiler s → s.vars.amx.error = e.code s))) ∧
      (u.vars.amx.error = AMX_ERR_NONE → v.vars.amx.error = AMX_ERR_NONE) := by
  constructor
  · intro e s hs hr
    rw [(ended_left hu hs hr h.2).eax]
    by_cases hk : e.KeepsError env.jit.compiler s
    · rw [Ending.error_kept hk]
      exact ⟨fun he _ => he, fun he => he hk⟩
    · rw [Ending.error_written hk]
      exact ⟨fun _ hc => absurd hc hk, fun _ => rfl⟩
  · intro h0
    rcases (level_returned C n u v hu h).error with he | he
    · exact he
    · exact he.trans h0

/-- `SYSREQ.PRI` with a callback that returns 12 and leaves `amx->error` alone: `Exec` returns 0. -/
theorem exec_error_lost :
    let u := sampleEntry AMX_EXEC_MAIN 0 sampleProgram.amx
    ∃ s v, Entry sampleEnv u ∧
      Ended sampleEnv (level sampleEnv (fun _ => True) 0) u (.callee .callback) s ∧
      Relation.ReflTransGen (level sampleEnv (fun _ => True) 0) s v ∧ v.pc = u.top ∧
      s.eax = AMX_ERR_SLEEP ∧ v.eax = AMX_ERR_NONE := by
  intro u
  have hu : Entry sampleEnv u := sampleEntry_entry (.inl rfl) rfl rfl rfl
  have hno : ¬ Continues sampleEnv u := fun h => absurd h.2 (by decide)
  have haddr : sampleJit.entryAddress u = 8 := by decide +kernel
  obtain ⟨s, t, hs, hrs, hinv, ht⟩ := sample_sysreq (X := fun _ _ => False) (p := 33199) (x := 33201) hu
    (by decide) hno haddr (by simp) (below_bytes (by decide) (by decide))
  have hr := hrs.trans hinv.reach
  have hmode : sampleEnv.mode u = .start := mode_start fun h => hno h.2
  have hc : Calling sampleEnv u (sampleEnv.mode u) .callback t := by
    rw [hmode]
    exact ht.calling
  -- the callback returns
  have hcall : HostCall sampleEnv (fun _ _ => False) 24 t
      { t with eax := AMX_ERR_SLEEP, esp := t.esp + 4, pc := t.top } :=
    ⟨.work (.refl t) ⟨rfl, rfl, rfl, rfl, rfl, rfl, fun _ _ => rfl⟩, rfl, rfl, rfl, rfl, rfl, rfl⟩
  have hstep := Step.callback hc.pc hcall
  obtain ⟨v, hv, hpc⟩ := sleep_run (fun _ _ _ h => h.elim) hu hc hstep ⟨rfl, rfl⟩
  have hend : Ended sampleEnv (level sampleEnv (fun _ => True) 0) u (.callee .callback)
      { t with eax := AMX_ERR_SLEEP, esp := t.esp + 4, pc := t.top } :=
    .callee .callback hr hc.pc hstep (show AMX_ERR_SLEEP ≠ AMX_ERR_NONE by decide)
  refine ⟨_, v, hu, hend, hv, hpc, rfl, ?_⟩
  rw [(ended_left hu hend hv hpc).eax, Ending.amx_sleep ⟨rfl, rfl⟩]
  show t.vars.amx.error = _
  rw [ht.vars]
  show s.vars.amx.error = _
  rw [hs.vars]
  rfl

theorem exec_error_halt : ∃ v,
    Exec (level sampleEnv (fun _ => True) 0) (sampleEntry 2 0 sampleProgram.amx) v ∧
      v.vars.amx.error = AMX_ERR_NONE := by
  obtain ⟨v, hv⟩ := sample_exec (fun _ => True) 0
  exact ⟨v, hv, (exec_error sampleEnv (fun _ => True) 0 (sampleEntry 2 0 sampleProgram.amx) v
    (sampleEntry_entry (.inl rfl) rfl rfl rfl) hv).2 rfl⟩

/-- **`Exec` reports PRI exactly if PRI is where the way out takes it from.** -/
theorem retval_pri_iff (env : Env) (C : Machine → Prop) (n : Nat) (u s v : Machine) (e : Ending)
    (hu : Entry env u) (hs : Ended env (level env C n) u e s)
    (hr : Relation.ReflTransGen (level env C n) s v) (hpc : v.pc = u.top)
    (hretval : u.mem.read32 (u.esp + 8) ≠ 0) :
    let q := u.esp - (env.mode u).depth - 16
    v.mem.read32 (u.mem.read32 (u.esp + 8)) = e.pri q s ↔ e.KeepsPri env.jit q s := by
  intro q
  rw [(ended_left hu hs hr hpc).retval hretval]
  exact Ending.retval_pri

/-- `HALT 12` with PRI = 77: the value reported is the CIP of the next instruction -/
theorem retval_not_pri :
    let u := sampleEntry AMX_EXEC_CONT 0x300000 asleep
    ∃ (ret : Word) (s v : Machine),
      Ended sampleEnv (level sampleEnv (fun _ => True) 0) u (.halt AMX_ERR_SLEEP ret) s ∧
      Relation.ReflTransGen (level sampleEnv (fun _ => True) 0) s v ∧ v.pc = u.top ∧
      s.eax = 77 ∧ v.mem.read32 0x300000 = 20 := by
  obtain ⟨ret, s, v, hu, hs, hr, hpc, heax, hcip⟩ := sample_continue (fun _ => True) 0
  refine ⟨ret, s, v, hs, hr, hpc, heax, ?_⟩
  have h := (ended_left hu hs hr hpc).retval (by decide)
  exact h.trans hcip

/-- `HALT 5`: the value reported is PRI -/
theorem retval_pri_halt :
    let u := sampleEntry 2 0x300000 sampleProgram.amx
    ∃ (ret : Word) (s v : Machine),
      Ended sampleEnv (level sampleEnv (fun _ => True) 0) u (.halt 5 ret) s ∧
      Relation.ReflTransGen (level sampleEnv (fun _ => True) 0) s v ∧ v.pc = u.top ∧
      v.mem.read32 0x300000 = s.eax := by
  intro u
  have hu : Entry sampleEnv u := sampleEntry_entry (.inr rfl) rfl rfl rfl
  obtain ⟨ret, s, v, -, hs, hr, hpc⟩ := sample_abort (.inr rfl) (fun _ => True) 0
  have h := retval_pri_iff sampleEnv (fun _ => True) 0 u s v _ hu hs hr hpc (by decide)
  have hp : u.mem.read32 (u.esp + 8) = 0x300000 := by decide
  rw [hp] at h
  exact ⟨ret, s, v, hs, hr, hpc, h.mpr fun _ h5 => absurd h5 (by decide)⟩

/-- **`Exec` restores the runtime information block exactly if it did not continue a script**, or if
the local variables it has not written hold the fields by chance. -/
theorem reset_fields_iff (env : Env) (C : Machine → Prop) (n : Nat) (u v : Machine)
    (hu : Entry env u) (h : Exec (level env C n) u v) :
    v.vars.rib.saved = u.vars.rib.saved ↔
      (check u.vars.amx = none → Continues env u →
        u.mem.read32 (u.esp - 12) = u.vars.rib.resetEbp ∧
        u.mem.read32 (u.esp - 16) = u.vars.rib.resetEsp ∧
        u.mem.read32 (u.esp - 20) = u.vars.rib.resetStk ∧
        u.mem.read32 (u.esp - 24) = u.vars.rib.resetHea) := by
  have hr := level_returned C n u v hu h
  unfold RuntimeInfoBlock.saved
  rw [hr.ribEbp, hr.ribEsp, hr.amxEbp, hr.amxEsp, hr.resetEbp, hr.resetEsp, hr.resetStk, hr.resetHea]
  by_cases hm : check u.vars.amx = none ∧ Continues env u
  · rw [mode_continue hm]
    simp only [List.cons.injEq, and_true, true_and]
    exact ⟨fun h _ _ => h, fun h => h hm.1 hm.2⟩
  · rw [mode_start hm]
    exact iff_of_true rfl fun h1 h2 => absurd ⟨h1, h2⟩ hm

/-- `Exec(AMX_EXEC_CONT)` changes `reset_ebp` from 6 to what was in the stack cell. -/
theorem reset_fields_lost :
    let u := sampleEntry AMX_EXEC_CONT 0x300000 asleep
    ∃ v, Entry sampleEnv u ∧ Exec (level sampleEnv (fun _ => True) 0) u v ∧
      u.vars.rib.resetEbp = 6 ∧ v.vars.rib.resetEbp = 0 := by
  intro u
  obtain ⟨ret, s, v, hu, hs, hr, hpc, -⟩ := sample_continue (fun _ => True) 0
  have hexec : Exec (level sampleEnv (fun _ => True) 0) u v := ⟨hs.reach.trans hr, hpc⟩
  refine ⟨v, hu, hexec, rfl, ?_⟩
  rw [(level_returned _ 0 u v hu hexec).resetEbp]
  have hmode : sampleEnv.mode u = .continue' := mode_continue ⟨by decide, rfl, by decide⟩
  rw [hmode]
  show u.mem.read32 (u.esp - 12) = 0
  decide

theorem reset_fields_start :
    let u := sampleEntry 2 0 sampleProgram.amx
    ∃ v, Exec (level sampleEnv (fun _ => True) 0) u v ∧ v.vars.rib.saved = u.vars.rib.saved := by
  intro u
  obtain ⟨v, hv⟩ := sample_exec (fun _ => True) 0
  refine ⟨v, hv, (reset_fields_iff sampleEnv (fun _ => True) 0 u v
    (sampleEntry_entry (.inl rfl) rfl rfl rfl) hv).mpr fun _ hc => ?_⟩
  exact absurd hc.2 (by decide)

end Env

end AmxJit
