import AmxJit.Runtime.Ends

/-!
# Native calls

`SysreqCHelper` and `SysreqDHelper` around the call of the callback or of a native:

* `until_sysreqC`, `until_sysreqD`   from the first instruction of the helper to the callee;
* `Calling`           the callee has been called, in a frame of `Exec`;
* `until_sysreqLeave` from the end of both helpers: on in the script, to `HaltHelper`, or to sleep;
* `until_return`      from the return of the callee.
-/

set_option linter.constructorNameAsVariable false

namespace AmxJit
open X86 Trans Reg

/-- the AMX structure for the callee: `cip` for a script that may sleep, `frm` and `stk` -/
def Jit.sysreqAmx (jit : Jit) (s : Machine) : Amx :=
  { s.vars.amx with
    cip := if jit.compiler.enableSleep then jit.returnCip s else s.vars.amx.cip
    frm := s.ebp - s.ebx, stk := s.esp + 8 - s.ebx }

/-- the structures for the callee -/
def Jit.sysreqVars (jit : Jit) (s : Machine) : Vars :=
  { s.vars with
    rib := { s.vars.rib with amxEbp := s.ebp, amxEsp := s.esp + 8 }, amx := jit.sysreqAmx s }

namespace Env
variable {env : Env} {R : Machine → Machine → Prop} {P Q : Machine → Prop} {u s : Machine} {k : Mode}

theorem sysreqArgs_run (adr : Label → Option Word) (s : Machine) :
    runSeq adr sysreqArgs s = some { s with
      eax := s.mem.read32 (s.esp + 4), esi := s.top, edi := s.esp + 4 + 4 + 0,
      esp := s.esp + 4 + 4 } := by
  simp only [sysreqArgs, runSeq_cons, runSeq_nil, exec, State.store, State.get, State.set, State.top,
    State.ea, ptr, Option.bind_some]

theorem saveAlt_run (adr : Label → Option Word) (s : Machine) (hedx : s.edx = s.vars.amxPtr) :
    ∃ fl : Flags, runSeq adr sysreqSwitch s = some { s with
      ebp := s.vars.rib.ebp, esp := s.vars.rib.esp - 4 - 4 - 4, flags := fl,
      mem := pushes s.mem s.vars.rib.esp [s.esp, s.ebp, s.ecx],
      vars := { s.vars with
        rib := { s.vars.rib with amxEbp := s.ebp, amxEsp := s.esp }
        amx := { s.vars.amx with frm := s.ebp - s.ebx, stk := s.esp - s.ebx } } } := by
  refine ⟨(s.flags.sub s.ebp s.ebx).sub s.esp s.ebx, ?_⟩
  simp only [sysreqSwitch, runSeq_cons, runSeq_nil, exec, State.load, State.store, State.alu,
    State.get, State.set, State.push, Option.bind_some, Option.map_some, Cells.get, Cells.ptr,
    Cells.set, Vars.get, Vars.set, Vars.ptr, RuntimeInfoBlock.get, RuntimeInfoBlock.set, Amx.set,
    hedx, if_pos, pushes]

theorem sysreqSwitch_run (adr : Label → Option Word) (s : Machine) (hedx : s.edx = s.vars.amxPtr) :
    ∃ fl : Flags, runSeq adr (sysreqArgs ++ sysreqSwitch) s = some { s with
      eax := s.mem.read32 (s.esp + 4), esi := s.top, edi := s.esp + 8,
      ebp := s.vars.rib.ebp, esp := s.vars.rib.esp - 12, flags := fl,
      mem := pushes s.mem s.vars.rib.esp [s.esp + 8, s.ebp, s.ecx],
      vars := { s.vars with
        rib := { s.vars.rib with amxEbp := s.ebp, amxEsp := s.esp + 8 }
        amx := { s.vars.amx with frm := s.ebp - s.ebx, stk := s.esp + 8 - s.ebx } } } := by
  have e8 : s.esp + 4 + 4 = s.esp + 8 := add_assoc _ _ _
  have e0 : s.esp + 8 + 0 = s.esp + 8 := BitVec.add_zero _
  have p12 : s.vars.rib.esp - 4 - 4 - 4 = s.vars.rib.esp - 12 := by
    rw [sub_sub_lit _ (c := 8) (by decide), sub_sub_lit _ (c := 12) (by decide)]
  have hargs := sysreqArgs_run adr s
  rw [e8, e0] at hargs
  obtain ⟨fl, hsave⟩ := saveAlt_run adr { s with
    eax := s.mem.read32 (s.esp + 4), esi := s.top, edi := s.esp + 8, esp := s.esp + 8 } hedx
  dsimp only at hsave
  rw [p12] at hsave
  refine ⟨fl, ?_⟩
  rw [runSeq_append, hargs, Option.bind_some]
  exact hsave

/-- the way of both helpers to the native stack -/
theorem until_sysreqEnter (hD : env.Drives R P) {l : Label} {name : String} {e : Word}
    (hseg : Seg env.jit.runtimeFetch env.jit.image.addr s.pc (sysreqEnter env.jit.compiler l name) e)
    (hamx : s.vars.rib.amx = s.vars.amxPtr)
    (h : ∀ (fl : Flags) (m : Mem), Set.EqOn m s.mem (below s.esp (env.window + 36))ᶜ →
      Until R P Q { s with
        eax := s.mem.read32 (s.esp + 4), edx := s.vars.amxPtr, esi := s.top, edi := s.esp + 8,
        ebp := s.vars.rib.ebp, esp := s.vars.rib.esp - 12, flags := fl,
        mem := pushes m s.vars.rib.esp [s.esp + 8, s.ebp, s.ecx],
        vars := env.jit.sysreqVars s, pc := e }) : Until R P Q s := by
  unfold sysreqEnter at hseg
  simp only [List.append_assoc] at hseg
  obtain ⟨-, hseg⟩ := seg_label.mp hseg
  obtain ⟨x1, hs1, hseg⟩ := seg_append.mp hseg
  obtain ⟨x2, hs2, hseg⟩ := seg_append.mp hseg
  obtain ⟨x3, hs3, hs4⟩ := seg_append.mp hseg
  have hw := env.window_le
  -- the words from the stack pointer on
  have hword {m : Mem} (hm : Set.EqOn m s.mem (below s.esp (env.window + 36))ᶜ) :
      m.read32 s.esp = s.top ∧ m.read32 (s.esp + 4) = s.mem.read32 (s.esp + 4) := by
    have hb : Set.EqOn m s.mem (bytes s.esp 8) :=
      hm.mono (Set.subset_compl_iff_disjoint_left.mpr (below_disjoint (by omega)))
    exact ⟨EqOn.read32 hb (bytes_mono (by omega)), EqOn.read32 hb (bytes_sub (i := 4) (by omega))⟩
  have hz : s.esp + 0 = s.esp := BitVec.add_zero _
  -- the switch
  have hswitch (x cip : Word) (fl : Flags) (m : Mem)
      (hcip : cip = if env.jit.compiler.enableSleep then env.jit.returnCip s else s.vars.amx.cip)
      (hm : Set.EqOn m s.mem (below s.esp (env.window + 36))ᶜ) :
      Until R P Q { s with
        eax := x, edx := s.vars.amxPtr, flags := fl, mem := m,
        vars := { s.vars with amx := { s.vars.amx with cip := cip } }, pc := x3 } := by
    obtain ⟨f, hrun⟩ := sysreqSwitch_run env.jit.image.addr { s with
      eax := x, edx := s.vars.amxPtr, flags := fl, mem := m,
      vars := { s.vars with amx := { s.vars.amx with cip := cip } }, pc := x3 } rfl
    refine until_run hD.driven hD.passes hs4 rfl hrun ?_
    have h' := h f m hm
    obtain ⟨h1, h2⟩ := hword hm
    unfold State.top at h1 h' ⊢
    unfold Jit.sysreqVars Jit.sysreqAmx at h'
    dsimp only at h' ⊢
    rw [h1, h2, hcip]
    exact h'
  refine until_debugPrint hD hs1 fun fl m _ hm => ?_
  have hm36 : Set.EqOn m s.mem (below s.esp (env.window + 36))ᶜ :=
    hm.mono (Set.compl_subset_compl.mpr (below_mono (by omega)))
  have hmov : runSeq env.jit.image.addr ([.mov edx amxPtrLabel] : Code)
      { s with flags := fl, mem := m, pc := x1 } =
      some { s with edx := s.vars.amxPtr, flags := fl, mem := m, pc := x1 } := by
    simp only [runSeq_cons, runSeq_nil, exec, State.load, State.store, State.set, Option.bind_some,
      Cells.get, Vars.get, RuntimeInfoBlock.get, hamx]
  refine until_run hD.driven hD.passes hs2 rfl hmov ?_
  by_cases hsleep : env.jit.compiler.enableSleep = true
  · rw [if_pos hsleep] at hs3
    obtain ⟨y1, hc1, hs3⟩ := seg_append.mp hs3
    obtain ⟨y2, hc2, hc3⟩ := seg_append.mp hs3
    have hload : runSeq env.jit.image.addr ([.mov eax (ptr esp 0)] : Code)
        { s with edx := s.vars.amxPtr, flags := fl, mem := m, pc := x2 } =
        some { s with eax := s.top, edx := s.vars.amxPtr, flags := fl, mem := m, pc := x2 } := by
      simp only [runSeq_cons, runSeq_nil, exec, State.load, State.store, State.get, State.set,
        State.ea, ptr, Option.bind_some, hz, (hword hm36).1]
    refine until_run hD.driven hD.passes hc1 rfl hload ?_
    refine until_reverseJumpLookup hD hc2 fun fl' m' _ hm' => ?_
    have hsave (t : Machine) (hedx : t.edx = t.vars.amxPtr) :
        runSeq env.jit.image.addr ([.mov (amxField edx .cip) eax] : Code) t = some { t with
          vars := { t.vars with amx := { t.vars.amx with cip := t.eax } } } := by
      simp only [runSeq_cons, runSeq_nil, exec, State.load, State.store, State.get, Option.bind_some,
        Cells.ptr, Cells.set, Vars.set, Vars.ptr, Amx.set, hedx, if_pos]
    refine until_run hD.driven hD.passes hc3 rfl (hsave _ rfl) ?_
    exact hswitch _ _ fl' m' (if_pos hsleep).symm (hm'.trans hm36)
  · rw [if_neg hsleep] at hs3
    obtain rfl : x2 = x3 := hs3
    exact hswitch s.eax s.vars.amx.cip fl m (if_neg hsleep).symm hm36

/-! ## the callee -/

end Env

/-- what the helpers call -/
inductive Callee where
  | callback | native
  deriving DecidableEq

/-- the size of the return address, the arguments and, for the callback, the result -/
def Callee.frame : Callee → Word
  | .callback => 24
  | .native => 12

/-- where the argument `params` is -/
def Callee.paramsOff : Callee → Word
  | .callback => 16
  | .native => 8

/-- what is called: the callback for the index, with a pointer to the result, or the native itself;
the helper was entered in the state `s` -/
def Callee.Called (s t : Machine) (result : Word) : Callee → Prop
  | .callback => t.mem.read32 (t.esp + 8) = s.mem.read32 (s.esp + 4) ∧
      t.mem.read32 (t.esp + 12) = result
  | .native => t.pc = s.mem.read32 (s.esp + 4)

/-- the helper that calls a callee -/
def Callee.helper : Callee → Label
  | .callback => .sysreqCHelper
  | .native => .sysreqDHelper

/-- the code of a native call -/
def requestCode (f : Callee) (o : Opnd Cell) : Buffer := asm [.push o] ++ emit (.call f.helper)

/-- the code behind the call -/
def afterCallee (c : CompilerImpl) : Callee → Buffer
  | .callback => asm (sysreqCResult ++ sysreqBack) ++ sysreqLeave c .sysreqCError .sysreqCSleepError
  | .native => asm (sysreqDResult ++ sysreqBack ++ sysreqDLoadError) ++
      sysreqLeave c .sysreqDError .sysreqDSleepError

namespace Env
variable (env : Env)

/-- the first instruction of a callee -/
def CalleePc (pc : Word) : Callee → Prop
  | .callback => pc = env.callback
  | .native => pc ∈ env.natives

/-- The callee is at its first instruction. -/
structure Calling (u : Machine) (k : Mode) (f : Callee) (s : Machine) : Prop where
  inFrame : InFrame env u k s
  pc : env.CalleePc s.pc f
  esp : s.esp = u.esp - k.depth - 12 - f.frame
  ret : env.jit.InScript s.esi
  back : ∃ e, Seg env.jit.runtimeFetch env.jit.image.addr s.top (afterCallee env.jit.compiler f) e
  room : env.AmxRoom (s.mem.read32 (u.esp - k.depth - 4))

variable {env : Env} {R : Machine → Machine → Prop} {P Q : Machine → Prop} {u s : Machine} {k : Mode}

/-- The callee has been called from the helper that was entered in the state `s`. -/
structure Entered (env : Env) (u : Machine) (k : Mode) (f : Callee) (s t : Machine) : Prop where
  calling : Calling env u k f t
  vars : t.vars = env.jit.sysreqVars s
  esi : t.esi = s.top
  stk : t.mem.read32 (u.esp - k.depth - 4) = s.esp + 8
  frm : t.mem.read32 (u.esp - k.depth - 8) = s.ebp
  alt : t.mem.read32 (u.esp - k.depth - 12) = s.ecx
  amx : t.mem.read32 (t.esp + 4) = s.vars.amxPtr
  params : t.mem.read32 (t.esp + f.paramsOff) = s.esp + 8
  called : f.Called s t (u.esp - k.depth - 16)
  mem : Set.EqOn t.mem s.mem (below s.esp (env.window + 36) ∪ below (u.esp - k.depth) 36)ᶜ

/-- the stack below the frame -/
theorem below_upTo {n : Nat} (hu : env.Entry u) (k : Mode) (hn : n ≤ 128) :
    Disjoint (below (u.esp - k.depth) n) (upTo env.top (u.esp - k.depth)) := by
  obtain ⟨h1, h2, h3⟩ := hu.depth k
  obtain ⟨hroom, -⟩ := hu.room
  have hlt : (env.top - env.lo).toNat < 2^32 := BitVec.isLt _
  have hd : k.depth.toNat ≤ 64 := by
    cases k <;> decide
  unfold need at hroom
  refine below_disjoint ?_
  omega

/-- the frame after pushes below it, and work on AMX memory -/
theorem InFrame.pushed {t : Machine} {n : Nat} (hu : env.Entry u) (hs : InFrame env u k s)
    (hn : n ≤ 128)
    (hm : Set.EqOn t.mem s.mem (env.amxMem ∪ below (u.esp - k.depth) n)ᶜ)
    (hesp : t.vars.rib.esp = s.vars.rib.esp) (hebp : t.vars.rib.ebp = s.vars.rib.ebp)
    (hamx : t.vars.rib.amx = s.vars.rib.amx) (hptr : t.vars.amxPtr = s.vars.amxPtr)
    (hcb : t.vars.amx.callback = s.vars.amx.callback)
    (hbase : dataBase t.vars = dataBase s.vars) (hebx : t.ebx = s.ebx) : InFrame env u k t := by
  refine hs.congr hu (hm.mono fun a ha => ?_) hesp hebp hamx hptr hcb hbase hebx
  rintro (h | h)
  · exact upTo_amxMem hu k ha h
  · exact Set.disjoint_left.mp (below_upTo hu k hn) h ha

theorem sysreqCArgs_run (adr : Label → Option Word) (s : Machine) :
    runSeq adr sysreqCArgs s = some { s with
      ecx := s.esp - 4, esp := s.esp - 20,
      mem := pushes s.mem s.esp [0, s.edi, s.esp - 4, s.eax, s.edx] } := by
  have h8 : s.esp - 4 - 4 = s.esp - 8 := sub_sub_lit _ (by decide)
  have h12 : s.esp - 8 - 4 = s.esp - 12 := sub_sub_lit _ (by decide)
  have h16 : s.esp - 12 - 4 = s.esp - 16 := sub_sub_lit _ (by decide)
  have h20 : s.esp - 16 - 4 = s.esp - 20 := sub_sub_lit _ (by decide)
  simp only [sysreqCArgs, runSeq_cons, runSeq_nil, exec, State.load, State.store, State.get,
    State.set, State.push, Option.bind_some, Option.map_some, h8, h12, h16, h20, pushes]

theorem sysreqDArgs_run (adr : Label → Option Word) (s : Machine) :
    runSeq adr sysreqDArgs s = some { s with
      esp := s.esp - 8, mem := pushes s.mem s.esp [s.edi, s.edx] } := by
  have h8 : s.esp - 4 - 4 = s.esp - 8 := sub_sub_lit _ (by decide)
  simp only [sysreqDArgs, runSeq_cons, runSeq_nil, exec, State.load, State.get, State.push,
    Option.bind_some, Option.map_some, h8, pushes]

/-- the frame in the state in which the callee is called -/
theorem InFrame.entered {t : Machine} {m : Mem} {w : List Word} (hu : env.Entry u)
    (hs : InFrame env u k s) (hroom : env.AmxRoom (s.esp + 8)) (hargs : 4 * w.length ≤ 36)
    (hm : Set.EqOn m s.mem (below s.esp (env.window + 36))ᶜ)
    (hmem : t.mem = pushes m (u.esp - k.depth) w) (hvars : t.vars = env.jit.sysreqVars s)
    (hebx : t.ebx = s.ebx) : InFrame env u k t ∧
      Set.EqOn t.mem s.mem (below s.esp (env.window + 36) ∪ below (u.esp - k.depth) 36)ᶜ := by
  have heq : Set.EqOn t.mem s.mem
      (below s.esp (env.window + 36) ∪ below (u.esp - k.depth) 36)ᶜ := by
    rw [hmem]
    refine ((pushes_eqOn m _ w (by omega)).mono ?_).trans (hm.mono ?_)
    · exact Set.compl_subset_compl.mpr ((below_mono hargs).trans Set.subset_union_right)
    · exact Set.compl_subset_compl.mpr Set.subset_union_left
  refine ⟨?_, heq⟩
  refine hs.pushed (n := 36) hu (by omega) (heq.mono (Set.compl_subset_compl.mpr ?_)) (by rw [hvars]; rfl)
    (by rw [hvars]; rfl) (by rw [hvars]; rfl) (by rw [hvars]; rfl) (by rw [hvars]; rfl)
    (by rw [hvars]; rfl) hebx
  refine Set.union_subset_union_left _ (Set.Subset.trans (below_add (v := 8) ?_) hroom)
  show env.window + 36 + 8 ≤ env.window + 256
  omega

/-- **`SysreqCHelper` calls the callback.** -/
theorem until_sysreqC (hD : env.Drives R P) (hu : env.Entry u) (hs : InFrame env u k s)
    (hpc : env.jit.image.addr .sysreqCHelper = some s.pc) (hret : env.jit.InScript s.top)
    (hroom : env.AmxRoom (s.esp + 8))
    (h : ∀ t, Entered env u k .callback s t → Until R P Q t) : Until R P Q s := by
  have hin : emitSysreqCHelper env.jit.compiler <:+: env.jit.runtime :=
    env.jit.infix_runtime (by simp [Jit.parts]) (List.infix_refl _)
  obtain ⟨a, e, hseg⟩ := env.jit.part hin
  have hpc' : s.pc = a := by
    unfold emitSysreqCHelper sysreqEnter at hseg
    simp only [List.append_assoc] at hseg
    exact Option.some.inj (hpc.symm.trans (seg_label.mp hseg).1)
  subst hpc'
  unfold emitSysreqCHelper at hseg
  obtain ⟨x4, hseg, hs5⟩ := seg_append.mp hseg
  obtain ⟨x3, hseg, hs4⟩ := seg_append.mp hseg
  obtain ⟨x2, hseg, n, hf, hn⟩ := seg_append.mp hseg
  obtain ⟨x1, hs1, hs2⟩ := seg_append.mp hseg
  obtain rfl : n = x3 := hn
  have hback : ∃ e, Seg env.jit.runtimeFetch env.jit.image.addr n
      (afterCallee env.jit.compiler .callback) e := ⟨e, seg_append.mpr ⟨x4, hs4, hs5⟩⟩
  refine until_sysreqEnter hD hs1 hs.amx fun fl m hm => ?_
  refine until_run hD.driven hD.passes hs2 rfl (sysreqCArgs_run _ _) ?_
  have hcall (t : Machine) (hedx : t.edx = t.vars.amxPtr) (hcb : t.vars.amx.callback = env.callback) :
      step env.jit.image.addr (.callOp (amxField edx .callback) : Instr Cell Label) n t =
        some { t.push n with pc := env.callback } := by
    simp only [step, State.load, State.get, Cells.get, Cells.ptr, Vars.get, Vars.ptr, Amx.get, hedx,
      if_pos, hcb, Option.map_some]
  refine until_instr hD.driven hD.passes hf (not_call fun l => by simp)
    (hcall _ rfl hs.callback) (h _ ?_)
  obtain ⟨p, hp⟩ : ∃ p, u.esp - k.depth = p := ⟨_, rfl⟩
  have hesp : s.vars.rib.esp = p := hs.esp.trans hp
  have e16 : p - 12 - 4 = p - 16 := sub_sub_lit _ (by decide)
  have e36 : p - 12 - 20 - 4 = p - 36 := by
    rw [sub_sub_lit p (c := 32) (by decide), sub_sub_lit p (c := 36) (by decide)]
  unfold State.push
  dsimp only
  rw [hesp]
  set args := [s.esp + 8, s.ebp, s.ecx, 0, s.esp + 8, p - 12 - 4, s.mem.read32 (s.esp + 4),
    s.vars.amxPtr, n] with hargs
  have hmem : (pushes (pushes m p [s.esp + 8, s.ebp, s.ecx]) (p - 12)
      [0, s.esp + 8, p - 12 - 4, s.mem.read32 (s.esp + 4), s.vars.amxPtr]).write32
        (p - 12 - 20 - 4) n = pushes m p args := by
    have h1 := pushes_append m p [s.esp + 8, s.ebp, s.ecx]
      [0, s.esp + 8, p - 12 - 4, s.mem.read32 (s.esp + 4), s.vars.amxPtr, n]
    have h2 := pushes_append (pushes m p [s.esp + 8, s.ebp, s.ecx]) (p - 12)
      [0, s.esp + 8, p - 12 - 4, s.mem.read32 (s.esp + 4), s.vars.amxPtr] [n]
    exact (h1.trans h2).symm
  rw [hmem, e36]
  have hread (i : Nat) (o v : Word) (ho : p - 36 + v = p - o)
      (ho' : o = BitVec.ofNat 32 (4 * (i + 1))) (hi : i < 9) :
      (pushes m p args).read32 (p - 36 + v) = args[i] := by
    rw [ho, ho']
    exact read_pushes m p args hi (show 4 * 9 < 2^32 by omega)
  have hat (i : Nat) (o : Word) (ho : o = BitVec.ofNat 32 (4 * (i + 1))) (hi : i < 9) :
      (pushes m p args).read32 (u.esp - k.depth - o) = args[i] := by
    rw [hp, ho]
    exact read_pushes m p args hi (show 4 * 9 < 2^32 by omega)
  have htop : (pushes m p args).read32 (p - 36) = n :=
    read_pushes m p args (i := 8) (show 8 < 9 by omega) (show 4 * 9 < 2^32 by omega)
  obtain ⟨hframe, heq⟩ := InFrame.entered (w := args) (t := { s with
      eax := s.mem.read32 (s.esp + 4), ecx := p - 12 - 4, edx := s.vars.amxPtr, esp := p - 36,
      ebp := s.vars.rib.ebp, esi := s.top, edi := s.esp + 8, flags := fl, mem := pushes m p args,
      vars := env.jit.sysreqVars s, pc := env.callback }) hu hs hroom (show 36 ≤ 36 by omega) hm
    (by rw [hp]) rfl rfl
  refine ⟨⟨hframe, rfl, ?_, hret, ?_, ?_⟩, rfl, rfl, ?_, ?_, ?_, ?_, ?_, ⟨?_, ?_⟩, heq⟩
  · rw [hp]
    exact (sub_sub_lit p (by decide)).symm
  · show ∃ e, Seg _ _ ((pushes m p args).read32 (p - 36)) _ e
    rw [htop]
    exact hback
  · exact (hat 0 4 rfl (by omega)).symm ▸ hroom
  · exact hat 0 4 rfl (by omega)
  · exact hat 1 8 rfl (by omega)
  · exact hat 2 12 rfl (by omega)
  · exact hread 7 32 4 (sub_add_lit p (by decide)) rfl (by omega)
  · exact hread 4 20 16 (sub_add_lit p (by decide)) rfl (by omega)
  · exact hread 6 28 8 (sub_add_lit p (by decide)) rfl (by omega)
  · refine (hread 5 24 12 (sub_add_lit p (by decide)) rfl (by omega)).trans ?_
    rw [hp]
    exact e16

/-- **`SysreqDHelper` calls the native.** -/
theorem until_sysreqD (hD : env.Drives R P) (hu : env.Entry u) (hs : InFrame env u k s)
    (hpc : env.jit.image.addr .sysreqDHelper = some s.pc) (hret : env.jit.InScript s.top)
    (hroom : env.AmxRoom (s.esp + 8)) (hnative : s.mem.read32 (s.esp + 4) ∈ env.natives)
    (h : ∀ t, Entered env u k .native s t → Until R P Q t) : Until R P Q s := by
  have hin : emitSysreqDHelper env.jit.compiler <:+: env.jit.runtime :=
    env.jit.infix_runtime (by simp [Jit.parts]) (List.infix_refl _)
  obtain ⟨a, e, hseg⟩ := env.jit.part hin
  have hpc' : s.pc = a := by
    unfold emitSysreqDHelper sysreqEnter at hseg
    simp only [List.append_assoc] at hseg
    exact Option.some.inj (hpc.symm.trans (seg_label.mp hseg).1)
  subst hpc'
  unfold emitSysreqDHelper at hseg
  obtain ⟨x4, hseg, hs5⟩ := seg_append.mp hseg
  obtain ⟨x3, hseg, hs4⟩ := seg_append.mp hseg
  obtain ⟨x2, hseg, n, hf, hn⟩ := seg_append.mp hseg
  obtain ⟨x1, hs1, hs2⟩ := seg_append.mp hseg
  obtain rfl : n = x3 := hn
  have hback : ∃ e, Seg env.jit.runtimeFetch env.jit.image.addr n
      (afterCallee env.jit.compiler .native) e := ⟨e, seg_append.mpr ⟨x4, hs4, hs5⟩⟩
  refine until_sysreqEnter hD hs1 hs.amx fun fl m hm => ?_
  refine until_run hD.driven hD.passes hs2 rfl (sysreqDArgs_run _ _) ?_
  refine until_instr hD.driven hD.passes hf (not_call fun l => by simp) rfl (h _ ?_)
  obtain ⟨p, hp⟩ : ∃ p, u.esp - k.depth = p := ⟨_, rfl⟩
  have hesp : s.vars.rib.esp = p := hs.esp.trans hp
  have e24 : p - 12 - 8 - 4 = p - 24 := by
    rw [sub_sub_lit p (c := 20) (by decide), sub_sub_lit p (c := 24) (by decide)]
  unfold State.push
  dsimp only [State.get]
  rw [hesp]
  set args := [s.esp + 8, s.ebp, s.ecx, s.esp + 8, s.vars.amxPtr, n] with hargs
  have hmem : (pushes (pushes m p [s.esp + 8, s.ebp, s.ecx]) (p - 12)
      [s.esp + 8, s.vars.amxPtr]).write32 (p - 12 - 8 - 4) n = pushes m p args := by
    have h1 := pushes_append m p [s.esp + 8, s.ebp, s.ecx] [s.esp + 8, s.vars.amxPtr, n]
    have h2 := pushes_append (pushes m p [s.esp + 8, s.ebp, s.ecx]) (p - 12)
      [s.esp + 8, s.vars.amxPtr] [n]
    exact (h1.trans h2).symm
  rw [hmem, e24]
  have hread (i : Nat) (o v : Word) (ho : p - 24 + v = p - o)
      (ho' : o = BitVec.ofNat 32 (4 * (i + 1))) (hi : i < 6) :
      (pushes m p args).read32 (p - 24 + v) = args[i] := by
    rw [ho, ho']
    exact read_pushes m p args hi (show 4 * 6 < 2^32 by omega)
  have hat (i : Nat) (o : Word) (ho : o = BitVec.ofNat 32 (4 * (i + 1))) (hi : i < 6) :
      (pushes m p args).read32 (u.esp - k.depth - o) = args[i] := by
    rw [hp, ho]
    exact read_pushes m p args hi (show 4 * 6 < 2^32 by omega)
  have htop : (pushes m p args).read32 (p - 24) = n :=
    read_pushes m p args (i := 5) (show 5 < 6 by omega) (show 4 * 6 < 2^32 by omega)
  obtain ⟨hframe, heq⟩ := InFrame.entered (w := args) (t := { s with
      eax := s.mem.read32 (s.esp + 4), edx := s.vars.amxPtr, esp := p - 24, ebp := s.vars.rib.ebp,
      esi := s.top, edi := s.esp + 8, flags := fl, mem := pushes m p args,
      vars := env.jit.sysreqVars s, pc := s.mem.read32 (s.esp + 4) }) hu hs hroom
    (show 24 ≤ 36 by omega) hm (by rw [hp]) rfl rfl
  refine ⟨⟨hframe, hnative, ?_, hret, ?_, ?_⟩, rfl, rfl, ?_, ?_, ?_, ?_, ?_, rfl, heq⟩
  · rw [hp]
    exact (sub_sub_lit p (by decide)).symm
  · show ∃ e, Seg _ _ ((pushes m p args).read32 (p - 24)) _ e
    rw [htop]
    exact hback
  · exact (hat 0 4 rfl (by omega)).symm ▸ hroom
  · exact hat 0 4 rfl (by omega)
  · exact hat 1 8 rfl (by omega)
  · exact hat 2 12 rfl (by omega)
  · exact hread 4 20 4 (sub_add_lit p (by decide)) rfl (by omega)
  · exact hread 3 16 8 (sub_add_lit p (by decide)) rfl (by omega)

/-! ## the return of the callee -/

end Env

/-- the AMX structure of a script that a callee puts to sleep -/
def sleepAmx (s : Machine) : Amx :=
  { s.vars.amx with
    pri := s.eax, alt := s.ecx, resetStk := s.vars.rib.resetStk, resetHea := s.vars.rib.resetHea }

namespace Env
variable {env : Env} {R : Machine → Machine → Prop} {P Q : Machine → Prop} {u s : Machine} {k : Mode}

theorem sysreqSleep_run (adr : Label → Option Word) (s : Machine)
    (hamx : s.vars.rib.amx = s.vars.amxPtr) :
    runSeq adr sysreqSleep s = some { s with
      edx := s.vars.amxPtr, ecx := s.vars.rib.resetHea,
      vars := { s.vars with amx := sleepAmx s } } := by
  simp only [sysreqSleep, runSeq_cons, runSeq_nil, exec, State.load, State.store, State.get,
    State.set, Option.bind_some, Cells.get, Cells.ptr, Cells.set, Vars.get, Vars.set, Vars.ptr,
    RuntimeInfoBlock.get, Amx.set, hamx, if_pos, sleepAmx]

/-- the common end of both helpers; `edi` is the error -/
theorem until_sysreqLeave (hD : env.Drives R P) (hu : env.Entry u) (hs : InFrame env u k s)
    {error sleepError : Label} {e : Word} (hroom : env.AmxRoom s.esp)
    (hseg : Seg env.jit.runtimeFetch env.jit.image.addr s.pc
      (sysreqLeave env.jit.compiler error sleepError) e)
    (hsleep : env.jit.HaltSleeps s → ∀ (m : Mem) (fl : Flags),
      Set.EqOn m s.mem (below s.esp env.need ∪ below (u.esp - k.depth + 16) (env.window + 32))ᶜ →
      Until R P Q (finished u { s with
        edx := s.vars.amxPtr, vars := { s.vars with amx := sleepAmx s } } m fl))
    (hhalt : ¬ env.jit.HaltSleeps s → s.edi ≠ AMX_ERR_NONE → ∀ (a n : Word) (fl : Flags),
      env.jit.runtimeFetch a = some (.call .haltHelper, n) →
      Until R P Q { s with flags := fl, pc := a })
    (hret : s.edi = AMX_ERR_NONE → ∀ fl : Flags,
      Until R P Q { s with flags := fl, mem := s.mem.write32 (s.esp - 4) s.esi, pc := s.esi }) :
    Until R P Q s := by
  unfold sysreqLeave at hseg
  simp only [List.append_assoc] at hseg
  obtain ⟨x1, hs1, hseg⟩ := seg_append.mp hseg
  obtain ⟨x2, hs2, hseg⟩ := seg_append.mp hseg
  obtain ⟨x3, hs3, hseg⟩ := seg_append.mp hseg
  obtain ⟨x4, hs4, hseg⟩ := seg_append.mp hseg
  obtain ⟨x5, hs5, hseg⟩ := seg_append.mp hseg
  obtain ⟨herr, hseg⟩ := seg_label.mp hseg
  obtain ⟨x6, ⟨n, hcall, -⟩, hs6⟩ := seg_append.mp hseg
  -- the script is not put to sleep
  have hnosleep (fl : Flags) (hno : ¬ env.jit.HaltSleeps s) :
      Until R P Q { s with flags := fl, pc := x1 } := by
    refine until_run hD.driven hD.passes hs2 rfl (cmp_imm_run _ _ .edi AMX_ERR_NONE) ?_
    refine until_jcc hD hs3 herr (fun ht => ?_) fun hn => ?_
    · have hne : s.edi ≠ AMX_ERR_NONE := by
        have := (cmp_ne fl s.edi AMX_ERR_NONE).symm.trans ht
        simpa using this
      exact hhalt hno hne x5 n _ hcall
    · have heq : s.edi = AMX_ERR_NONE := by
        have := (cmp_ne fl s.edi AMX_ERR_NONE).symm.trans hn
        simpa using this
      obtain ⟨y, hf, -⟩ := hs5
      refine until_run hD.driven hD.passes hs4 rfl (t := { s with
        esp := s.esp - 4, flags := fl.sub s.edi AMX_ERR_NONE,
        mem := s.mem.write32 (s.esp - 4) s.esi, pc := x3 }) rfl ?_
      refine until_instr hD.driven hD.passes hf (not_call fun l => by simp) rfl ?_
      have h' := hret heq (fl.sub s.edi AMX_ERR_NONE)
      have hpop : s.esp - 4 + 4 = s.esp := BitVec.sub_add_cancel _ _
      have htop : (s.mem.write32 (s.esp - 4) s.esi).read32 (s.esp - 4) = s.esi :=
        read32_write32_self _ _ _
      unfold State.top
      dsimp only [State.get]
      rwa [hpop, htop]
  by_cases hen : env.jit.compiler.enableSleep = true
  · rw [if_pos hen] at hs1 hs6
    obtain ⟨y1, hc1, hc2⟩ := seg_append.mp hs1
    obtain ⟨hsl, hs6⟩ := seg_label.mp hs6
    obtain ⟨y2, hs6, hs7⟩ := seg_append.mp hs6
    obtain ⟨y3, hprint, hsave⟩ := seg_append.mp
      (show Seg _ _ _ (asm (emitDebugPrint env.jit.compiler "AMX_ERR_SLEEP") ++ asm sysreqSleep) _ by
        simpa only [asm, code, List.map_append] using hs6)
    obtain ⟨_, _, d, _, -, -, hd⟩ := env.jit.helper_parts
    have hexitl : env.jit.image.addr .execExit = some d :=
      (seg_label.mp (by simpa only [helperExit, List.append_assoc] using hd)).1
    refine until_run hD.driven hD.passes hc1 rfl (cmp_imm_run _ _ .edi AMX_ERR_SLEEP) ?_
    refine until_jcc hD hc2 hsl (fun ht => ?_) fun hn => ?_
    · have heq : s.edi = AMX_ERR_SLEEP :=
        of_decide_eq_true ((cmp_e s.flags s.edi AMX_ERR_SLEEP).symm.trans ht)
      refine until_debugPrint hD hprint fun fl m _ hm => ?_
      refine until_run hD.driven hD.passes hsave rfl (sysreqSleep_run _ _ hs.amx) ?_
      refine until_jmp hD hs7 hexitl ?_
      have hbelow : below s.esp (env.window + 32) ⊆ below s.esp env.need :=
        below_mono (by
          unfold need
          omega)
      refine until_execExit hD hu (k := k) (hs.amxWork hu ?_ rfl rfl rfl rfl rfl rfl rfl) hexitl ?_
      · exact hm.mono (Set.compl_subset_compl.mpr (hbelow.trans hroom))
      · intro m' fl' hm'
        refine hsleep ⟨hen, heq⟩ m' fl' ((hm'.mono ?_).trans (hm.mono ?_))
        · exact Set.compl_subset_compl.mpr Set.subset_union_right
        · exact Set.compl_subset_compl.mpr (hbelow.trans Set.subset_union_left)
    · have hne : s.edi ≠ AMX_ERR_SLEEP :=
        of_decide_eq_false ((cmp_e s.flags s.edi AMX_ERR_SLEEP).symm.trans hn)
      exact hnosleep _ fun hc => hne hc.2
  · rw [if_neg hen] at hs1
    obtain rfl : s.pc = x1 := hs1
    exact hnosleep s.flags fun hc => hen hc.1

/-! ### from the return address of the callee -/

end Env

/-- PRI behind the call: the callback's result is read through `ecx` -/
def Callee.pri (t : Machine) : Callee → Word
  | .callback => t.mem.read32 t.ecx
  | .native => t.eax

/-- the error of a callee: the callback returns it, a native leaves it in `amx->error` -/
def Callee.error (t : Machine) : Callee → Word
  | .callback => t.eax
  | .native => t.vars.amx.error

/-- back on the AMX stack, after the callee has returned in the state `t`; `p` is the native stack
pointer of the helper -/
def Callee.resumed (f : Callee) (p : Word) (t : Machine) : Machine :=
  { t with
    eax := f.pri t, ecx := t.mem.read32 (p - 12), ebp := t.mem.read32 (p - 8),
    esp := t.mem.read32 (p - 4), edi := f.error t
    edx := match f with
      | .callback => t.mem.read32 (p - 4)
      | .native => t.vars.amxPtr }

namespace Env
variable {env : Env} {R : Machine → Machine → Prop} {P Q : Machine → Prop} {u s : Machine} {k : Mode}

theorem sysreqBack_run (adr : Label → Option Word) (s : Machine) :
    runSeq adr sysreqBack s = some { s with
      ecx := s.mem.read32 s.esp, ebp := s.mem.read32 (s.esp + 4),
      edx := s.mem.read32 (s.esp + 4 + 4), esp := s.mem.read32 (s.esp + 4 + 4) } := by
  simp only [sysreqBack, runSeq_cons, runSeq_nil, exec, State.load, State.store, State.get, State.set,
    State.top, Option.bind_some]

theorem readResult_run (adr : Label → Option Word) (s : Machine) (d v : Word) :
    ∃ fl : Flags, runSeq adr ([.mov edi eax, .mov eax (ptr ecx d), .add esp v] : Code) s =
      some { s with edi := s.eax, eax := s.mem.read32 (s.ecx + d), esp := s.esp + v, flags := fl } := by
  refine ⟨s.flags.add s.esp v, ?_⟩
  simp only [runSeq_cons, runSeq_nil, exec, State.load, State.store, State.alu, State.get, State.set,
    State.ea, ptr, Option.bind_some, Option.map_some]

theorem addEsp_run (adr : Label → Option Word) (s : Machine) (v : Word) :
    ∃ fl : Flags, runSeq adr ([.add esp v] : Code) s = some { s with esp := s.esp + v, flags := fl } := by
  refine ⟨s.flags.add s.esp v, ?_⟩
  simp only [runSeq_cons, runSeq_nil, exec, State.load, State.store, State.alu, State.get, State.set,
    Option.bind_some, Option.map_some]

theorem sysreqDLoadError_run (adr : Label → Option Word) (s : Machine)
    (hamx : s.vars.rib.amx = s.vars.amxPtr) :
    runSeq adr sysreqDLoadError s = some { s with
      edx := s.vars.amxPtr, edi := s.vars.amx.error } := by
  simp only [sysreqDLoadError, runSeq_cons, runSeq_nil, exec, State.load, State.store, State.get,
    State.set, Option.bind_some, Cells.get, Cells.ptr, Vars.get, Vars.ptr, RuntimeInfoBlock.get,
    Amx.get, hamx, if_pos]

theorem sysreqCBack_run (adr : Label → Option Word) (s : Machine) (p : Word) (h : s.esp = p - 32) :
    ∃ fl : Flags, runSeq adr (sysreqCResult ++ sysreqBack) s =
      some { Callee.resumed .callback p s with flags := fl } := by
  obtain ⟨fl, hrun⟩ := readResult_run adr s 0 20
  have e20 : s.esp + 20 = p - 12 := by
    rw [h]
    exact sub_add_lit p (by decide)
  have e8 : p - 12 + 4 = p - 8 := sub_add_lit p (by decide)
  have e4 : p - 8 + 4 = p - 4 := sub_add_lit p (by decide)
  have e0 : s.ecx + 0 = s.ecx := BitVec.add_zero _
  rw [e20, e0] at hrun
  have hback := sysreqBack_run adr { s with
    edi := s.eax, eax := s.mem.read32 s.ecx, esp := p - 12, flags := fl }
  dsimp only at hback
  rw [e8, e4] at hback
  refine ⟨fl, ?_⟩
  rw [runSeq_append]
  unfold sysreqCResult
  rw [hrun, Option.bind_some]
  exact hback

theorem sysreqDBack_run (adr : Label → Option Word) (s : Machine) (p : Word) (h : s.esp = p - 20)
    (hamx : s.vars.rib.amx = s.vars.amxPtr) :
    ∃ fl : Flags, runSeq adr (sysreqDResult ++ sysreqBack ++ sysreqDLoadError) s =
      some { Callee.resumed .native p s with flags := fl } := by
  obtain ⟨fl, hrun⟩ := addEsp_run adr s 8
  have e20 : s.esp + 8 = p - 12 := by
    rw [h]
    exact sub_add_lit p (by decide)
  have e8 : p - 12 + 4 = p - 8 := sub_add_lit p (by decide)
  have e4 : p - 8 + 4 = p - 4 := sub_add_lit p (by decide)
  rw [e20] at hrun
  have hback := sysreqBack_run adr { s with esp := p - 12, flags := fl }
  dsimp only at hback
  rw [e8, e4] at hback
  refine ⟨fl, ?_⟩
  rw [runSeq_append, runSeq_append]
  unfold sysreqDResult
  rw [hrun, Option.bind_some, hback, Option.bind_some]
  exact sysreqDLoadError_run adr _ hamx

/-- **From the return of a callee** on in the script, to `HaltHelper`, or to sleep. -/
theorem until_return (hD : env.Drives R P) (hu : env.Entry u) (f : Callee) (hs : InFrame env u k s)
    (hback : ∃ e, Seg env.jit.runtimeFetch env.jit.image.addr s.pc (afterCallee env.jit.compiler f) e)
    (hesp : s.esp = u.esp - k.depth - 12 - f.frame + 4)
    (hroom : env.AmxRoom (s.mem.read32 (u.esp - k.depth - 4)))
    (hsleep : let r := f.resumed (u.esp - k.depth) s
      env.jit.HaltSleeps r → ∀ (m : Mem) (fl : Flags),
        Set.EqOn m s.mem (below r.esp env.need ∪ below (u.esp - k.depth + 16) (env.window + 32))ᶜ →
        Until R P Q (finished u { r with
          edx := r.vars.amxPtr, vars := { r.vars with amx := sleepAmx r } } m fl))
    (hhalt : let r := f.resumed (u.esp - k.depth) s
      ¬ env.jit.HaltSleeps r → r.edi ≠ AMX_ERR_NONE → ∀ (a n : Word) (fl : Flags),
        env.jit.runtimeFetch a = some (.call .haltHelper, n) →
        Until R P Q { r with flags := fl, pc := a })
    (hret : let r := f.resumed (u.esp - k.depth) s
      r.edi = AMX_ERR_NONE → ∀ fl : Flags,
        Until R P Q { r with flags := fl, mem := r.mem.write32 (r.esp - 4) r.esi, pc := r.esi }) :
    Until R P Q s := by
  obtain ⟨e, hseg⟩ := hback
  obtain ⟨p, hp⟩ : ∃ p, u.esp - k.depth = p := ⟨_, rfl⟩
  cases f with
  | callback =>
    obtain ⟨x, hs1, hs2⟩ := seg_append.mp (show Seg _ _ _ (asm (sysreqCResult ++ sysreqBack) ++ _) _
      from hseg)
    have h32 : s.esp = p - 32 := by
      rw [hesp, hp]
      show p - 12 - 24 + 4 = _
      rw [sub_sub_lit p (c := 36) (by decide), sub_add_lit p (c := 32) (by decide)]
    obtain ⟨fl, hrun⟩ := sysreqCBack_run env.jit.image.addr s p h32
    rw [hp] at hsleep hhalt hret hroom
    refine until_run hD.driven hD.passes hs1 rfl hrun ?_
    refine until_sysreqLeave hD hu (k := k) ?_ hroom hs2 ?_ hhalt hret
    · exact hs.congr hu (fun _ _ => rfl) rfl rfl rfl rfl rfl rfl rfl
    · rw [hp]
      exact hsleep
  | native =>
    obtain ⟨x, hs1, hs2⟩ := seg_append.mp (show Seg _ _ _
      (asm (sysreqDResult ++ sysreqBack ++ sysreqDLoadError) ++ _) _ from hseg)
    have h20 : s.esp = p - 20 := by
      rw [hesp, hp]
      show p - 12 - 12 + 4 = _
      rw [sub_sub_lit p (c := 24) (by decide), sub_add_lit p (c := 20) (by decide)]
    obtain ⟨fl, hrun⟩ := sysreqDBack_run env.jit.image.addr s p h20 hs.amx
    rw [hp] at hsleep hhalt hret hroom
    refine until_run hD.driven hD.passes hs1 rfl hrun ?_
    refine until_sysreqLeave hD hu (k := k) ?_ hroom hs2 ?_ hhalt hret
    · exact hs.congr hu (fun _ _ => rfl) rfl rfl rfl rfl rfl rfl rfl
    · rw [hp]
      exact hsleep

end Env

end AmxJit
