import AmxJit.Plugin.Handler
import AmxJit.Runtime.Existence

/-!
# The plugin with the modelled compiler and its code

* `Plugin.Compiles`     the compiler: a compiled program, or a null pointer;
* `Plugin.Returns`      the errors with which `Exec` of a compiled program returns, in any process;
* `sample_returns`      `main` of the sample returns the errors of its native call;
* `samplePlugin`        the plugin with the sample, and an interpreter.
-/

set_option linter.constructorNameAsVariable false

namespace AmxJit
open X86 Trans

/-- the result of the compiler for the AMX `s` -/
def Plugin.Compiles (s : AmxRef) : Option Jit → Prop
  | some jit => jit.amx = s
  | none => ∃ c enc, AmxJit.compile c s enc = none

/-- `Exec(index, retval)` of a compiled program returns the error -/
def Plugin.Returns (jit : Jit) (index error : Word) : Prop :=
  ∃ env : Env, env.jit = jit ∧ ∃ (C : Machine → Prop) (n : Nat) (u v : Machine), Env.Entry env u ∧
    u.mem.read32 (u.esp + 4) = index ∧ Env.Exec (Env.level env C n) u v ∧ v.eax = error

namespace Env

/-- the error of the way in which the script ends -/
theorem returns_of_ended {env : Env} {C : Machine → Prop} {n : Nat} {u s v : Machine} {e : Ending}
    (hu : Entry env u) (h : Ended env (level env C n) u e s)
    (hv : Relation.ReflTransGen (level env C n) s v) (hpc : v.pc = u.top) :
    Plugin.Returns env.jit (u.mem.read32 (u.esp + 4))
      (e.amx env.jit (u.esp - (env.mode u).depth) s).error :=
  ⟨env, rfl, C, n, u, v, hu, rfl, ⟨h.reach.trans hv, hpc⟩, (ended_left hu h hv hpc).eax⟩

/-! ## an instance -/

/-- a callback that returns an error -/
def errorCallback (error : Word) (c : Machine) : Machine :=
  { c with eax := error, esp := c.esp + 4, pc := c.top }

theorem sample_returns {error : Word} (h0 : error ≠ AMX_ERR_NONE) (hsleep : error ≠ AMX_ERR_SLEEP) :
    Plugin.Returns sampleJit AMX_EXEC_MAIN error := by
  have hu : Entry sampleEnv (sampleEntry AMX_EXEC_MAIN 0 sampleProgram.amx) :=
    sampleEntry_entry (.inl rfl) rfl rfl rfl
  have hno : ¬ Continues sampleEnv (sampleEntry AMX_EXEC_MAIN 0 sampleProgram.amx) :=
    fun h => absurd h.2 (by decide)
  have haddr : sampleJit.entryAddress (sampleEntry AMX_EXEC_MAIN 0 sampleProgram.amx) = 8 := by
    decide +kernel
  obtain ⟨s, c, hs, hr, hinv, hc⟩ := sample_sysreq (X := fun _ _ => False) (p := 33199) (x := 33201) hu
    (by decide) hno haddr (by simp) (below_bytes (by decide) (by decide))
  have hcall : HostCall sampleEnv (fun _ _ => False) 24 c (errorCallback error c) :=
    ⟨.work (.refl c) ⟨rfl, rfl, rfl, rfl, rfl, rfl, fun _ _ => rfl⟩, rfl, rfl, rfl, rfl, rfl, rfl⟩
  have hstep : Step sampleEnv (fun _ _ => False) c (errorCallback error c) :=
    .callback hc.calling.pc hcall
  have hnot (p : Word) :
      ¬ sampleEnv.jit.HaltSleeps (Callee.callback.resumed p (errorCallback error c)) :=
    fun h => hsleep h.2
  have hcalling : Calling sampleEnv (sampleEntry AMX_EXEC_MAIN 0 sampleProgram.amx)
      (sampleEnv.mode (sampleEntry AMX_EXEC_MAIN 0 sampleProgram.amx)) .callback c := by
    rw [mode_start fun h => hno h.2]
    exact hc.calling
  obtain ⟨v, hv, hleft⟩ := (must_error (fun _ _ _ h => h.elim) hu hcalling hstep h0 (hnot _)).run
  have hend : Ended sampleEnv (level sampleEnv (fun _ => True) 0)
      (sampleEntry AMX_EXEC_MAIN 0 sampleProgram.amx) (.callee .callback) (errorCallback error c) :=
    .callee .callback (hr.trans hinv.reach) hc.calling.pc hstep h0
  have hindex : (sampleEntry AMX_EXEC_MAIN 0 sampleProgram.amx).mem.read32 0x180004 = AMX_EXEC_MAIN := by
    decide
  have hret := returns_of_ended hu hend hv hleft.pc
  rw [Ending.amx_abort (hnot _)] at hret
  have hret' : Plugin.Returns sampleJit
    ((sampleEntry AMX_EXEC_MAIN 0 sampleProgram.amx).mem.read32 0x180004) error := hret
  rwa [hindex] at hret'

end Env

/-- The script defines `OnJITCompile` with the given index, or not; the interpreter runs every
function, and does nothing but consume the parameters. -/
def samplePlugin (onJITCompile : Option Word) : Plugin Jit where
  linux := true
  findPublic _ name := if name = "OnJITCompile" then onJITCompile else none
  findPubVar _ _ := none
  compile := Plugin.Compiles
  entryPoint := Plugin.Returns
  refuses _ := False
  runs s t := t = { s with amx :=
    { s.amx with stk := s.amx.stk + 4 * s.amx.paramcount, paramcount := 0 } }

/-- one instance, with the sample -/
def sampleWorld (s : AmxRef) : World Unit Jit := ⟨fun _ => s, fun _ => none, [], 0⟩

namespace World

theorem sampleWorld_initial (s : AmxRef) : (sampleWorld s).Initial := ⟨fun _ => rfl, rfl⟩

/-- The first call compiles the sample and runs it. -/
theorem sample_run {index error : Word} (herr : Plugin.Returns sampleJit index error) :
    ∃ c, Run (Step (samplePlugin none)) (sampleWorld sampleProgram)
      [.call 0 () index sampleProgram, .silent, .compile () (some sampleJit),
        .start 0 () (.compiled sampleJit) sampleProgram, .left 0 () error] c ∧
      c.stack = [afterExec 0 () index error] ∧
      c.handlers () = some ⟨.compileSucceded, some sampleJit⟩ ∧ c.amx () = sampleProgram := by
  have hturn : (sampleWorld sampleProgram).HostTurn := fun f fs h => by cases h
  have h1 : Run (Step (samplePlugin none)) (sampleWorld sampleProgram)
      [.call 0 () index sampleProgram] ⟨fun _ => sampleProgram, fun _ => some ⟨.compile, none⟩,
        [.compiling 0 () index .begin], 1⟩ := .snoc .nil (.call hturn rfl)
  have h2 := h1.snoc (.accept rfl rfl)
  have h3 := h2.snoc (.compile (b := sampleJit) rfl (by decide) rfl (by
    intro a hd h0
    cases h0
    simp))
  have h4 := h3.snoc (.start rfl)
  have h5 := h4.snoc (.left rfl herr)
  exact ⟨_, h5, rfl, rfl, rfl⟩

end World

end AmxJit
