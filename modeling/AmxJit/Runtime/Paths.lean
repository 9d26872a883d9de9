import AmxJit.Runtime.Natives
import AmxJit.Runtime.Gap

/-!
# The two paths of a native call

A native is called through `amx->callback`, or directly.

* `NativeCall env C n i f u s c t`   a run comes to the native call `i`, and the callee returns;
* `Handed`             what the callee is called with: all that it sees of the AMX;
* `amxCallback`        the callback of the AMX library;
* `native_result_iff`  the script goes on behind the call with the native's result in PRI exactly if
                       it is read from where the native has left it, and in the state in which it goes
                       on after a direct call of the same native.
-/

set_option linter.constructorNameAsVariable false

namespace AmxJit
open X86 Trans Reg

/-- equal but for `cip` -/
def Amx.SameButCip (a b : Amx) : Prop := { a with cip := b.cip } = b

/-- equal but for `cip` and `error` -/
def Amx.SameButError (a b : Amx) : Prop := { a with cip := b.cip, error := b.error } = b

/-! ## natives -/

/-- a native function, called with `params` on the AMX structure and the memory; what it may leave:
its result, the structure and the memory -/
abbrev Native := Word → Amx → Mem → Word → Amx → Mem → Prop

/-- `amx_Callback(amx, index, result, params)` from its call to its return:
`amx->error = 0; *result = native(amx, params); return amx->error;` -/
def amxCallback (native : Native) (c t : Machine) : Prop :=
  ∃ result mem, native (c.mem.read32 (c.esp + 16)) { c.vars.amx with error := 0 } c.mem
      result t.vars.amx mem ∧
    t.mem = mem.write32 (c.mem.read32 (c.esp + 12)) result ∧ t.eax = t.vars.amx.error

/-- `native(amx, params)` -/
def directCall (native : Native) (c t : Machine) : Prop :=
  native (c.mem.read32 (c.esp + 8)) c.vars.amx c.mem t.eax t.vars.amx t.mem

/-- a call of the native by way of the callee -/
def Callee.Calls (native : Native) (c t : Machine) : Callee → Prop
  | .callback => amxCallback native c t
  | .native => directCall native c t

/-- the AMX structure on which the native is called -/
def Callee.amx (a : Amx) : Callee → Amx
  | .callback => { a with error := 0 }
  | .native => a

namespace Env

/-- A run from the entry `u` of `Exec` has come to the native call `i` at `s`; the callee, called in
the state `c`, returns in the state `t` without an error. -/
structure NativeCall (env : Env) (C : Machine → Prop) (n : Nat) (i : Instruction) (f : Callee)
    (u s c t : Machine) : Prop where
  entry : Entry env u
  run : Relation.ReflTransGen (level env C n) u s
  instr : i ∈ env.jit.instrs
  requests : i.opcode.requests = true
  intrinsic : i.intrinsic env.jit.amx = none
  pc : env.jit.native i.address = some s.pc
  invokes : Invokes env (level env C n) f s c
  returns : level env C n c t
  ok : f.error t = AMX_ERR_NONE

/-- What the callee sees in the state `c`: the arguments, the AMX structure of the script with its
registers, and its memory but for what has been pushed below STK. -/
structure Handed (env : Env) (i : Instruction) (f : Callee) (s c : Machine) : Prop
    extends Given f s c where
  amx : c.vars.amx =
    { s.vars.amx with cip := c.vars.amx.cip, frm := s.ebp - s.ebx, stk := s.esp - s.ebx }
  cip : if env.jit.compiler.enableSleep then
      ∃ ret, env.jit.Pushes i ret ∧ c.vars.amx.cip = getANXAddressByJITInstrPtr env.jit.instrTable ret
    else c.vars.amx.cip = s.vars.amx.cip
  mem : Set.EqOn c.mem s.mem (env.amxMem \ below s.esp env.need)

/-- Two scripts are in one state of their AMX, as far as the memory in `A`; PRI apart. -/
structure SameAmx (A : Set Word) (s s' : Machine) : Prop where
  alt : s'.ecx = s.ecx
  frm : s'.ebp = s.ebp
  stk : s'.esp = s.esp
  ebx : s'.ebx = s.ebx
  amx : s'.vars.amx.SameButCip s.vars.amx
  mem : Set.EqOn s'.mem s.mem A

/-- The callee in `c` and the native in `c'` are called with the same. -/
structure SameCall (A : Set Word) (f : Callee) (c c' : Machine) : Prop where
  params : c'.mem.read32 (c'.esp + 8) = c.mem.read32 (c.esp + f.paramsOff)
  amx : c'.vars.amx.SameButCip c.vars.amx
  mem : Set.EqOn c'.mem c.mem A

/-- Called as by the callee in `c` and, directly, as in `c'`, the native does the same. -/
def DoesSame (A : Set Word) (native : Native) (f : Callee) (c c' : Machine) : Prop :=
  ∀ v a m v' a' m',
    native (c.mem.read32 (c.esp + f.paramsOff)) (f.amx c.vars.amx) c.mem v a m →
    native (c'.mem.read32 (c'.esp + 8)) c'.vars.amx c'.mem v' a' m' →
    v' = v ∧ a'.SameButError a ∧ Set.EqOn m' m A

/-- The native depends on its argument, the AMX structure without `cip` and `error`, and the memory
in `A` only. -/
def Depends (A : Set Word) (native : Native) : Prop :=
  ∀ p a m a' m', a'.SameButError a → Set.EqOn m' m A → ∀ v b n v' b' n',
    native p a m v b n → native p a' m' v' b' n' → v' = v ∧ b'.SameButError b ∧ Set.EqOn n' n A

section
variable {env : Env} {C : Machine → Prop} {n : Nat} {i : Instruction} {f : Callee}
variable {u s c t : Machine} {A : Set Word} {native : Native}

/-- such a native does the same where it is called with the same -/
theorem SameCall.doesSame {c' : Machine} (h : SameCall A f c c') (hnat : Depends A native) :
    DoesSame A native f c c' := by
  intro v a m v' a' m' hv hv'
  rw [h.params] at hv'
  refine hnat _ _ _ _ _ ?_ h.mem v a m v' a' m' hv hv'
  have hamx := h.amx
  unfold Amx.SameButCip at hamx
  unfold Amx.SameButError
  rw [← hamx]
  cases f <;> rfl

/-- outside the bytes that a native call may write below STK -/
theorem disjoint_below {K : Set Word} (hA : A ⊆ env.amxMem \ below s.esp env.need)
    (hK : K ⊆ below s.esp env.need) : Disjoint A K :=
  (Set.disjoint_left.mpr fun _ ha hb => (hA ha).2 hb).mono_right hK

theorem disjoint_cell (hA : A ⊆ env.amxMem \ below s.esp env.need) :
    Disjoint A (bytes (s.esp - 4) 4) ∧ Disjoint A (bytes (s.esp - 8) 4) := by
  have hneed : env.need = env.window + 256 := rfl
  constructor
  · exact disjoint_below hA (bytes_below (i := 4) (by omega) (by omega))
  · exact disjoint_below hA (bytes_below (i := 8) (by omega) (by omega))

/-- the frame of `Exec` is not in the AMX memory -/
theorem disjoint_frame (hA : A ⊆ env.amxMem) (hu : Entry env u) (k : Mode) :
    Disjoint A (below (u.esp - k.depth) 36) := by
  have hw := env.window_le
  have hneed : env.need = env.window + 256 := rfl
  refine Set.disjoint_left.mpr fun a ha hb => hu.stack_below ?_ (hA ha)
  have hd : k.depth.toNat ≤ 64 := by
    cases k <;> decide
  rw [← ofNat_toNat k.depth] at hb
  exact below_below (i := k.depth.toNat) (n := env.need) (by omega) (by omega) hb

/-- **What the callee of a native call is called with.** -/
theorem NativeCall.entered (h : NativeCall env C n i f u s c t) :
    ∃ v ret a, Entered env u (env.mode u) f (requested s v ret a) c ∧ env.jit.InScript ret ∧
      env.jit.Pushes i ret ∧ ∀ j ∈ env.jit.instrs, j.address = i.next → env.jit.At j ret := by
  obtain ⟨X, hlevel, hX⟩ := @level_calls env C n
  have hr := h.run
  have hc := h.invokes
  rw [hlevel] at hr hc
  exact (invokes_entered hX h.entry hr h.instr h.requests h.intrinsic h.pc hc).2

theorem Entered.handed {v ret a : Word} (hu : Entry env u)
    (hc : Entered env u (env.mode u) f (requested s v ret a) c) (hpush : env.jit.Pushes i ret) :
    Handed env i f s c := by
  have hvars : c.vars.amx = env.jit.sysreqAmx (requested s v ret a) := by
    rw [hc.vars]
    rfl
  have hstk : (requested s v ret a).esp + 8 - s.ebx = s.esp - s.ebx := by
    rw [sub_eight]
  refine ⟨hc.given, ?_, ?_, ?_⟩
  · rw [hvars]
    unfold Jit.sysreqAmx
    rw [← hstk]
    rfl
  · rw [hvars]
    split
    · rename_i hsleep
      refine ⟨ret, hpush, ?_⟩
      show (if env.jit.compiler.enableSleep then _ else _) = _
      rw [if_pos hsleep]
      exact congrArg (getANXAddressByJITInstrPtr _) (read32_write32_self _ _ _)
    · rename_i hsleep
      exact if_neg hsleep
  · have hw := env.window_le
    have hneed : env.need = env.window + 256 := rfl
    have hA : env.amxMem \ below s.esp env.need ⊆ env.amxMem \ below s.esp env.need :=
      Set.Subset.refl _
    obtain ⟨h4, h8⟩ := disjoint_cell hA
    have hbelow := disjoint_below hA
      (below_below (p := s.esp) (k := env.window + 36) (i := 8) (n := env.need) (by omega) (by omega))
    have hframe := disjoint_frame (A := env.amxMem \ below s.esp env.need) Set.sdiff_subset hu
      (env.mode u)
    have hesp : (requested s v ret a).esp = s.esp - 8 := by
      show s.esp - 4 - 4 = s.esp - 8
      exact sub_sub_lit s.esp (by decide)
    refine (hc.mem.mono ?_).trans ((eqOn_write _ ?_).trans (eqOn_write _ ?_))
    · rw [hesp]
      exact Set.subset_compl_iff_disjoint_right.mpr (hbelow.union_right hframe)
    · rw [sub_sub_lit s.esp (c := 8) (by decide)]
      exact h8.symm
    · exact h4.symm

/-- two native calls in one state of the AMX are handed the same -/
theorem Handed.sameCall {env' : Env} {s' c' : Machine} (h : Handed env i f s c)
    (h' : Handed env' i .native s' c') (hs : SameAmx A s s')
    (hA : A ⊆ env.amxMem \ below s.esp env.need) (hA' : A ⊆ env'.amxMem \ below s.esp env'.need) :
    SameCall A f c c' := by
  have hA'' : A ⊆ env'.amxMem \ below s'.esp env'.need := by
    rw [hs.stk]
    exact hA'
  refine ⟨h'.params.trans (hs.stk.trans h.params.symm), ?_, ?_⟩
  · have hamx := hs.amx
    unfold Amx.SameButCip at hamx ⊢
    rw [h'.amx, h.amx, hs.frm, hs.stk, hs.ebx, ← hamx]
  · exact (h'.mem.mono hA'').trans (hs.mem.trans (h.mem.mono hA).symm)

/-- what a callee has left in the memory of the AMX, and as its result -/
theorem Entered.left {v ret a : Word} (hu : Entry env u)
    (hc : Entered env u (env.mode u) f (requested s v ret a) c)
    (hA : A ⊆ env.amxMem \ below s.esp env.need) (h : f.Calls native c t) :
    ∃ m, native (c.mem.read32 (c.esp + f.paramsOff)) (f.amx c.vars.amx) c.mem (f.result c t)
      t.vars.amx m ∧ Set.EqOn t.mem m A ∧ f.error t = t.vars.amx.error := by
  cases f with
  | callback =>
    obtain ⟨result, m, hnat, hmem, herr⟩ := h
    have hresult : Callee.callback.result c t = result := by
      show t.mem.read32 (c.mem.read32 (c.esp + 12)) = result
      rw [hmem, read32_write32_self]
    refine ⟨m, hresult ▸ hnat, ?_, herr⟩
    have hframe := disjoint_frame (hA.trans Set.sdiff_subset) hu (env.mode u)
    rw [hmem, hc.called.2]
    refine eqOn_write _ (hframe.mono_right ?_).symm
    exact bytes_below (i := 16) (by omega) (by omega)
  | native => exact ⟨t.mem, h, fun _ _ => rfl, rfl⟩

/-- the script behind the native call -/
theorem NativeCall.behind (h : NativeCall env C n i f u s c t) :
    Must (level env C n) (fun r => r.eax = f.pri t ∧ Behind env i s t r) t := by
  obtain ⟨v, ret, a, hentered, hret, -, hnext⟩ := h.entered
  obtain ⟨X, hlevel, hX⟩ := @level_calls env C n
  have hr := h.run
  have hc := h.invokes
  have ht := h.returns
  rw [hlevel] at hr hc ht ⊢
  obtain ⟨hs, -⟩ := invokes_entered hX h.entry hr h.instr h.requests h.intrinsic h.pc hc
  exact (until_behind hX h.entry hs hentered hret hnext ht h.ok).mono (fun _ _ => trivial) fun _ => id

/-- two scripts go on in one state of the AMX -/
theorem Behind.sameAmx {env' : Env} {s' t' r r' : Machine} (h : Behind env i s t r)
    (h' : Behind env' i s' t' r') (hs : SameAmx A s s')
    (hA : A ⊆ env.amxMem \ below s.esp env.need) (hamx : t'.vars.amx.SameButCip t.vars.amx)
    (hmem : Set.EqOn t'.mem t.mem A) : SameAmx A r r' := by
  have hcell := (disjoint_cell hA).1
  have hcell' : Disjoint A (bytes (s'.esp - 4) 4) := by
    rw [hs.stk]
    exact hcell
  refine ⟨?_, ?_, ?_, ?_, ?_, ?_⟩
  · rw [h'.alt, h.alt, hs.alt]
  · rw [h'.frm, h.frm, hs.frm]
  · rw [h'.stk, h.stk, hs.stk]
  · rw [h'.ebx, h.ebx, hs.ebx]
  · rw [h'.vars, h.vars]
    exact hamx
  · have hr := h.mem.mono (Set.subset_compl_iff_disjoint_right.mpr hcell)
    have hr' := h'.mem.mono (Set.subset_compl_iff_disjoint_right.mpr hcell')
    exact hr'.trans (hmem.trans hr.symm)

end

/-- **The script goes on behind a native call with the native's result in PRI exactly if the result
is read from where it is**: a direct call leaves it in `eax`; after a call of the callback it is
read through `ecx`, which the callback need not preserve.  Apart from this, it goes on as after a
direct call of the same native. -/
theorem native_result_iff (env : Env) (C : Machine → Prop) (n : Nat) (i : Instruction) (f : Callee)
    (u s c t : Machine) (h : NativeCall env C n i f u s c t) :
    Handed env i f s c ∧
    (∃ v, Must (level env C n) (fun r => r.eax = v ∧ Behind env i s t r) t ∧
      (v = f.result c t ↔ f = .native ∨ t.mem.read32 t.ecx = f.result c t)) ∧
    ∀ (env' : Env) (C' : Machine → Prop) (n' : Nat) (u' s' c' t' : Machine) (A : Set Word),
      NativeCall env' C' n' i .native u' s' c' t' → SameAmx A s s' →
      A ⊆ env.amxMem \ below s.esp env.need → A ⊆ env'.amxMem \ below s.esp env'.need →
      SameCall A f c c' ∧ ∀ native, f.Calls native c t → directCall native c' t' →
        DoesSame A native f c c' →
        Must (level env C n) (fun r => Must (level env' C' n') (fun r' => SameAmx A r r' ∧
          (r.eax = r'.eax ↔ f = .native ∨ t.mem.read32 t.ecx = f.result c t)) t') t := by
  obtain ⟨v, ret, a, hentered, -, hpush, -⟩ := h.entered
  have hhanded := hentered.handed h.entry hpush
  refine ⟨hhanded, ⟨f.pri t, h.behind, Callee.pri_iff⟩, ?_⟩
  intro env' C' n' u' s' c' t' A h' hs hA hA'
  obtain ⟨v', ret', a', hentered', -, hpush', -⟩ := h'.entered
  refine ⟨hhanded.sameCall (hentered'.handed h'.entry hpush') hs hA hA', ?_⟩
  intro native hnat hnat' hsame
  have hA'' : A ⊆ env'.amxMem \ below s'.esp env'.need := by
    rw [hs.stk]
    exact hA'
  obtain ⟨m, hcall, hmem, herr⟩ := hentered.left h.entry hA hnat
  obtain ⟨hresult, hamx, hm⟩ := hsame _ _ _ _ _ _ hcall hnat'
  -- neither has left an error, so the structures differ in `cip` at most
  have herr0 : t.vars.amx.error = t'.vars.amx.error :=
    (herr.symm.trans h.ok).trans (Eq.symm h'.ok)
  have hcip : t'.vars.amx.SameButCip t.vars.amx := by
    unfold Amx.SameButError at hamx
    unfold Amx.SameButCip
    rw [herr0] at hamx
    exact hamx
  refine h.behind.mono (fun _ _ => trivial) fun r hr => ?_
  refine h'.behind.mono (fun _ _ => trivial) fun r' hr' => ⟨?_, ?_⟩
  · exact hr.2.sameAmx hr'.2 hs hA hcip (hm.trans hmem.symm)
  · rw [hr.1, hr'.1, ← Callee.pri_iff]
    show f.pri t = t'.eax ↔ _
    rw [hresult]

end Env

/-! ## an instance -/

/-- `HALT 0; ZERO.ALT; SYSREQ.C 0; HALT 0`, with `main` at 8 and one native -/
def pathsProgram : AmxRef where
  amx := { sampleProgram.amx with sysreqD := 1 }
  header := ⟨8, 0, 28, 0, 256, 8, 28, 28, 36⟩
  mem := (AmxRef.ofCells [120, 0, 90, 123, 0, 120, 0, 0xFFFFFF20, 36, 0]).mem

def directCompiler : CompilerImpl := { plainCompiler with enableSysreqD := true }

theorem pathsProgram_compiles :
    (compile plainCompiler pathsProgram fun _ _ => 1).isSome = true ∧
      (compile directCompiler pathsProgram fun _ _ => 1).isSome = true := by decide +kernel

/-- its native is called by way of the callback -/
def callbackJit : Jit :=
  .load plainCompiler pathsProgram 0x8000 pathsProgram_compiles.1 (by decide +kernel)

/-- its native is called directly -/
def directJit : Jit :=
  .load directCompiler pathsProgram 0x8000 pathsProgram_compiles.2 (by decide +kernel)

theorem pathsJit_instrs :
    callbackJit.instrs = [⟨0, .halt, [0]⟩, ⟨8, .zeroAlt, []⟩, ⟨12, .sysreqC, [0]⟩, ⟨20, .halt, [0]⟩] ∧
      directJit.instrs = callbackJit.instrs := by
  decide +kernel

def callbackEnv : Env := callbackJit.process rfl rfl (by decide +kernel)

def directEnv : Env :=
  let env := directJit.process rfl rfl (by decide +kernel)
  { env with
    natives := {0xFFFFFF20}
    natives_outside := by
      rintro a rfl
      show directJit.size < (0xFFFFFF20 - 0x8000 : Word).toNat
      decide +kernel
    natives_ne := by
      rintro a rfl
      exact ⟨show (0xFFFFFF20 : Word) ≠ 0xFFFFFF10 by decide, fun f => by cases f <;> decide⟩
    null := ⟨env.null.1, env.null.2.1, show (0 : Word) ≠ 0xFFFFFF20 by decide, env.null.2.2.2⟩ }

def pathsEntry : Machine :=
  { sampleEntry AMX_EXEC_MAIN 0 pathsProgram.amx with pc := (callbackJit.image.addr .exec).getD 0 }

namespace Env

theorem pathsEntry_entry : Entry callbackEnv pathsEntry ∧ Entry directEnv pathsEntry := by
  have htop : pathsEntry.top = -1 := by
    show (Mem.write32 _ _ _).read32 0x180000 = _
    rw [read32_write32_sep _ _ _ _ (by decide), read32_write32_sep _ _ _ _ (by decide),
      read32_write32_self]
  have hexec : callbackJit.image.addr .exec = some pathsEntry.pc := by
    show callbackJit.image.addr .exec = some ((callbackJit.image.addr .exec).getD 0)
    decide +kernel
  have hexec' : directJit.image.addr .exec = some pathsEntry.pc := by
    show directJit.image.addr .exec = some ((callbackJit.image.addr .exec).getD 0)
    decide +kernel
  refine ⟨process_entry hexec htop (.inl rfl) (.inl (read32_write32_self _ _ _)) rfl rfl rfl
    (.inl rfl), ?_⟩
  have h : Entry (directJit.process rfl rfl (by decide +kernel)) pathsEntry :=
    process_entry hexec' htop (.inl rfl) (.inl (read32_write32_self _ _ _)) rfl rfl rfl (.inl rfl)
  refine ⟨h.pc, ⟨h.ret.1, h.ret.2.1, ?_, h.ret.2.2.2⟩, h.ret_ne, h.room, h.args, h.retval, h.amx,
    h.callback, h.stack⟩
  rw [htop]
  show (-1 : Word) ≠ 0xFFFFFF20
  decide

/-- `main` runs `ZERO.ALT` and comes to the native call -/
theorem paths_run {env : Env} {f : Callee} {w a : Word} (hu : Entry env pathsEntry)
    (haddr : env.jit.entryAddress pathsEntry = 8) (h8 : env.jit.native 8 = some 33092)
    (hf : env.jit.image.fetch 33092 = some (.xor ecx ecx, 33093))
    (hseg : Seg env.jit.image.fetch env.jit.image.addr 33093 (requestCode f (.imm w)) 33095)
    (ha : env.jit.image.addr f.helper = some a) (hroom : env.AmxRoom 0x180f8)
    (hnative : f = .native → w ∈ env.natives) :
    ∃ t fl c, Started env pathsEntry 33092 t ∧
      let s : Machine := { t with ecx := 0, flags := fl, pc := 33093 }
      Relation.ReflTransGen (level env (fun _ => True) 0) pathsEntry s ∧
        Invokes env (level env (fun _ => True) 0) f s c ∧
        Entered env pathsEntry .start f { s with
          esp := s.esp - 8, mem := (s.mem.write32 (s.esp - 4) w).write32 (s.esp - 8) 33095,
          pc := a } c := by
  have hno : ¬ Continues env pathsEntry := fun h => absurd h.2 (by decide)
  obtain ⟨t, hr, ht⟩ := start_run (X := fun _ _ => False) hu (by decide) hno
    (by rw [haddr]; decide) (by rw [haddr]; exact h8)
  have hin : env.jit.InScript t.pc := by
    rw [ht.pc]
    exact env.jit.inScript_native h8
  have hft : env.jit.image.fetch t.pc = some (.xor ecx ecx, 33093) := by
    rw [ht.pc]
    exact hf
  have hstep : step env.jit.image.addr (.xor ecx ecx : Instr Cell Label) 33093 t = some { t with
      ecx := 0, flags := t.flags.logic 0, pc := 33093 } := by
    refine (step_of_exec (t := { t with ecx := 0, flags := t.flags.logic 0 }) _ ?_ 33093).trans rfl
    show some { t with ecx := t.ecx ^^^ t.ecx, flags := t.flags.logic (t.ecx ^^^ t.ecx) } = _
    rw [BitVec.xor_self]
    rfl
  have hin' := env.jit.inScript_next hin hft
  have hs : InFrame env pathsEntry .start { t with
      ecx := 0, flags := t.flags.logic 0, pc := 33093 } :=
    ht.inFrame.amxWork hu (fun _ _ => rfl) rfl rfl rfl rfl rfl rfl rfl
  have hesp : t.esp = 0x180f8 := ht.esp
  obtain ⟨c, hc, hentered⟩ := request_run (X := fun _ _ => False) hu hs hin' hseg rfl ha
    (by rw [hesp]; exact hroom) hnative
  exact ⟨t, _, c, ht, hr.tail (step_on hin hft hstep (fun _ _ => rfl) hin'), hc, hentered⟩

/-- a callback that stores the result 7, returns 0 and leaves `x` in `ecx` -/
def sevenCallback (c : Machine) (x : Word) : Machine :=
  { c with
    eax := 0, ecx := x, esp := c.esp + 4, mem := c.mem.write32 (c.mem.read32 (c.esp + 12)) 7,
    pc := c.top }

/-- a native that returns 7 -/
def sevenNative (c : Machine) : Machine := { c with eax := 7, esp := c.esp + 4, pc := c.top }

/-- such a native, as the callback and the script call it -/
def sevens : Native := fun _ a m v a' m' => v = 7 ∧ a' = a ∧ m' = m

theorem paths_call {env : Env} {t : Machine} {w : Word} (h : Started env pathsEntry w t) :
    t.esp = 0x180f8 ∧ t.ebp = 0x18100 ∧ t.ebx = 0x18000 ∧ t.vars = startVars pathsEntry ∧
      (env.need = 256 → Set.EqOn t.mem pathsEntry.mem (bytes 0x10000 0x1000)) := by
  refine ⟨h.esp, h.ebp, h.inFrame.ebx, h.vars, fun hneed => h.mem.mono ?_⟩
  rw [hneed]
  refine Set.subset_compl_iff_disjoint_right.mpr (Set.disjoint_union_right.mpr ⟨?_, ?_⟩)
  · exact (below_disjoint (p := 0x180000) (n := 256) (k := 0xffffff00) (by decide)).symm.mono_left
      (bytes_bytes (by decide))
  · exact bytes_disjoint (p := 0x10000) (q := 0x180f8) (by decide) (by decide)

/-- The callback and the native are called, and return 7. -/
theorem paths_seven (x : Machine → Word) :
    let i : Instruction := ⟨12, .sysreqC, [0]⟩
    ∃ s c s' c' : Machine,
      NativeCall callbackEnv (fun _ => True) 0 i .callback pathsEntry s c (sevenCallback c (x c)) ∧
      amxCallback sevens c (sevenCallback c (x c)) ∧
      c.mem.read32 (c.esp + 12) = c.esp + 20 ∧ c.mem.read32 (c.esp + 4) = 1 ∧
      NativeCall directEnv (fun _ => True) 0 i .native pathsEntry s' c' (sevenNative c') ∧
      directCall sevens c' (sevenNative c') ∧ s.esp = 0x180f8 ∧ SameAmx (bytes 0x10000 0x1000) s s' := by
  intro i
  obtain ⟨hu, hu'⟩ := pathsEntry_entry
  obtain ⟨hinstrs, hinstrs'⟩ := pathsJit_instrs
  have hroom : below 0x180f8 256 ⊆ bytes 0x10000 0x10000 := below_bytes (by decide) (by decide)
  obtain ⟨t, fl, c, ht, hr, hinv, hc⟩ := @paths_run callbackEnv .callback 0 _ hu
    (by decide +kernel) (by decide +kernel) (by decide +kernel)
    ⟨33094, by decide +kernel, 33095, by decide +kernel, rfl⟩
    (show callbackJit.image.addr .sysreqCHelper = some 33024 by decide +kernel) hroom (by simp)
  obtain ⟨t', fl', c', ht', hr', hinv', hc'⟩ := @paths_run directEnv .native 0xFFFFFF20 _ hu'
    (by decide +kernel) (by decide +kernel) (by decide +kernel)
    ⟨33094, by decide +kernel, 33095, by decide +kernel, rfl⟩
    (show directJit.image.addr .sysreqDHelper = some 33059 by decide +kernel) hroom fun _ => rfl
  obtain ⟨h1, h2, h3, h4, h5⟩ := paths_call ht
  obtain ⟨h1', h2', h3', h4', h5'⟩ := paths_call ht'
  have hvars : c.vars = callbackJit.sysreqVars _ := hc.vars
  have hesp : c.esp = 0x180000 - 64 - 12 - 24 := hc.calling.esp
  have hesp' : c'.esp = 0x180000 - 64 - 12 - 12 := hc'.calling.esp
  have hresult : c.mem.read32 (c.esp + 12) = c.esp + 20 := by
    rw [hc.called.2, hesp]
    show (0x180000 - 64 - 16 : Word) = 0x180000 - 64 - 12 - 24 + 20
    decide
  have hptr : c.mem.read32 (c.esp + 4) = 1 := by
    rw [hc.amx]
    show t.vars.amxPtr = 1
    rw [h4]
    rfl
  have hkeep : Set.EqOn (c.mem.write32 (c.mem.read32 (c.esp + 12)) 7) c.mem
      (upTo callbackEnv.top (c.esp + 24)) := by
    rw [hresult, hesp]
    exact eqOn_write 7 (bytes_disjoint (by decide) (by decide))
  have hcall : HostCall callbackEnv (fun _ _ => False) 24 c (sevenCallback c (x c)) :=
    ⟨.work (.refl c) ⟨rfl, rfl, rfl, rfl, rfl, rfl, hkeep⟩, rfl, rfl, rfl, rfl, rfl, rfl⟩
  have hcall' : HostCall directEnv (fun _ _ => False) 12 c' (sevenNative c') :=
    ⟨.work (.refl c') ⟨rfl, rfl, rfl, rfl, rfl, rfl, fun _ _ => rfl⟩, rfl, rfl, rfl, rfl, rfl, rfl⟩
  have hpc : callbackJit.native 12 = some 33093 ∧ directJit.native 12 = some 33093 := by
    decide +kernel
  have hmem : i ∈ callbackJit.instrs := by
    rw [hinstrs]
    simp only [i, List.mem_cons, true_or, or_true]
  have herr : c.vars.amx.error = 0 := by
    rw [hvars]
    show t.vars.amx.error = 0
    rw [h4]
    rfl
  have herr' : c'.vars.amx.error = 0 := by
    rw [hc'.vars]
    show t'.vars.amx.error = 0
    rw [h4']
    rfl
  refine ⟨_, c, _, c', ⟨hu, hr, hmem, rfl, by decide +kernel, hpc.1, hinv,
    .callback hc.calling.pc hcall, rfl⟩, ⟨7, c.mem, ⟨rfl, ?_, rfl⟩, rfl, ?_⟩, hresult, hptr,
    ⟨hu', hr', ?_, rfl, by decide +kernel, hpc.2, hinv', .native hc'.calling.pc hcall',
      herr'⟩, ⟨rfl, rfl, rfl⟩, h1, ?_⟩
  · show c.vars.amx = { c.vars.amx with error := 0 }
    rw [← herr]
  · exact herr.symm
  · show i ∈ directJit.instrs
    rw [hinstrs']
    exact hmem
  · refine ⟨rfl, h2'.trans h2.symm, h1'.trans h1.symm, h3'.trans h3.symm, ?_, ?_⟩
    · show t'.vars.amx.SameButCip t.vars.amx
      rw [h4, h4']
      rfl
    · exact (h5' rfl).trans (h5 rfl).symm

theorem sevens_depends (A : Set Word) : Depends A sevens := by
  rintro p a m a' m' ha hm v b n v' b' n' ⟨rfl, rfl, rfl⟩ ⟨rfl, rfl, rfl⟩
  exact ⟨rfl, ha, hm⟩

/-- The callback stores 7 and leaves another address in `ecx`: the script goes on with PRI = 1, after
a direct call of the native with PRI = 7. -/
theorem native_result_lost :
    let i : Instruction := ⟨12, .sysreqC, [0]⟩
    ∃ s c t s' c' t' : Machine,
      NativeCall callbackEnv (fun _ => True) 0 i .callback pathsEntry s c t ∧
      NativeCall directEnv (fun _ => True) 0 i .native pathsEntry s' c' t' ∧
      amxCallback sevens c t ∧ directCall sevens c' t' ∧ Callee.callback.result c t = 7 ∧
      Must (level callbackEnv (fun _ => True) 0) (fun r => r.eax = 1 ∧ Behind callbackEnv i s t r) t ∧
      Must (level directEnv (fun _ => True) 0) (fun r => r.eax = 7 ∧ Behind directEnv i s' t' r) t' := by
  intro i
  obtain ⟨s, c, s', c', h, hcall, hresult, hptr, h', hcall', -⟩ := paths_seven fun c => c.esp + 4
  have hpri : Callee.callback.pri (sevenCallback c (c.esp + 4)) = 1 := by
    show (c.mem.write32 (c.mem.read32 (c.esp + 12)) 7).read32 (c.esp + 4) = 1
    rw [hresult, read32_write32_sep _ _ _ _ ((sep_add _ _ _).mpr (by decide)), hptr]
  refine ⟨s, c, _, s', c', _, h, h', hcall, hcall', read32_write32_self _ _ _, ?_, h'.behind⟩
  have hbehind := h.behind
  rw [hpri] at hbehind
  exact hbehind

/-- The callback preserves `ecx`: on both paths the script goes on with PRI = 7. -/
theorem native_result_seven :
    let i : Instruction := ⟨12, .sysreqC, [0]⟩
    ∃ s c t s' c' t' : Machine,
      NativeCall callbackEnv (fun _ => True) 0 i .callback pathsEntry s c t ∧
      NativeCall directEnv (fun _ => True) 0 i .native pathsEntry s' c' t' ∧
      Must (level callbackEnv (fun _ => True) 0) (fun r => r.eax = 7 ∧ Behind callbackEnv i s t r) t ∧
      Must (level callbackEnv (fun _ => True) 0) (fun r => Must (level directEnv (fun _ => True) 0)
        (fun r' => SameAmx (bytes 0x10000 0x1000) r r' ∧ r.eax = r'.eax) t') t := by
  intro i
  obtain ⟨s, c, s', c', h, hcall, hresult, hptr, h', hcall', hesp, hs⟩ :=
    paths_seven fun c => c.mem.read32 (c.esp + 12)
  obtain ⟨-, ⟨v, hmust, hiff⟩, hboth⟩ := native_result_iff callbackEnv (fun _ => True) 0 i .callback
    pathsEntry s c _ h
  have hv : v = 7 := (hiff.mpr (.inr rfl)).trans (read32_write32_self _ _ _)
  rw [hv] at hmust
  have hA : (bytes 0x10000 0x1000 : Set Word) ⊆ bytes 0x10000 0x10000 \ below s.esp 256 := by
    rw [hesp]
    refine Set.subset_sdiff.mpr ⟨bytes_bytes (by decide), ?_⟩
    exact (below_disjoint (p := 0x180f8) (n := 256) (k := 0xffffff00) (by decide)).symm.mono_left
      (bytes_bytes (by decide))
  obtain ⟨hsame, hagree⟩ := hboth directEnv (fun _ => True) 0 pathsEntry s' c' _ _ h' hs hA hA
  have hend := hagree sevens hcall hcall' (hsame.doesSame (sevens_depends _))
  refine ⟨s, c, _, s', c', _, h, h', hmust, hend.mono (fun _ _ => trivial) fun r hr => ?_⟩
  exact hr.mono (fun _ _ => trivial) fun r' hr' => ⟨hr'.1, hr'.2.mpr (.inr rfl)⟩

end Env

end AmxJit
