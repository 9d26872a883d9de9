import AmxJit.Runtime.Calls

/-!
# The way out of `Exec`

The parts of the runtime that a run passes after it has left the script, from `execExit` in
`ExecHelper` back to the caller of `Exec`.

* `Saved env u m`        what `Exec`, entered in the state `u`, has saved on the native stack `m`;
* `until_leave`          from the label `return` to the caller;
* `until_afterCall`      from the label `after_call`;
* `until_execExit`       from the label `exec_exit`, in a frame `Frame`.
-/

set_option linter.constructorNameAsVariable false

namespace AmxJit
open X86 Trans Reg

/-! ## parts of the runtime -/

section
variable (c : CompilerImpl)

/-- `Exec` up to the call of `ExecHelper` -/
def execFront : Buffer :=
  label .exec ++ asm execEnter ++ emit (.jcc .ne .nullData) ++ asm execNullData ++
  label .nullData ++
  asm (execCheck .hea .stk) ++ emit (.jcc .ge .stackHeapOverflow) ++
  asm (execCheck .stk .stp) ++ emit (.jcc .g .stackUnderflow) ++
  asm (execCheck .hea .hlw) ++ emit (.jcc .l .heapUnderflow) ++
  asm execCheckNatives ++ emit (.jcc .e .nativeNotFound) ++
  asm execResetError ++
  (if c.enableSleep then asm execCheckCont ++ emit (.jcc .e .continueFromSleep) else []) ++
  asm execPublicArgs ++ emit (.callAbs c.getPublicAddress) ++
  asm execTestPublic ++ emit (.jcc .e .publicNotFound) ++
  asm execStartArgs ++ emit (.callAbs c.getJITInstrPtr) ++
  asm execSaveReset ++ emit (.call .execHelper) ++ asm [.add esp (4 : Word)]

/-- `Exec` behind the call -/
def execAfterCall : Buffer :=
  label .afterCall ++ asm execTestRetval ++ emit (.jcc .e .finish) ++ asm execStoreRetval ++
  label .finish ++ asm execRestoreReset

def execReturn : Buffer := label .return' ++ asm execLeave ++ emit .ret

def execRejects : Buffer :=
  execReject .stackHeapOverflow AMX_ERR_STACKERR ++ execReject .heapUnderflow AMX_ERR_HEAPLOW ++
  execReject .stackUnderflow AMX_ERR_STACKLOW ++ execReject .nativeNotFound AMX_ERR_NOTFOUND ++
  execReject .publicNotFound AMX_ERR_INDEX

def execContinue : Buffer :=
  if c.enableSleep then
    label .continueFromSleep ++ emit (.call .execContHelper) ++ emit (.jmp .afterCall)
  else []

theorem emitExec_eq : emitExec c =
    execFront c ++ execAfterCall ++ execReturn ++ execRejects ++ execContinue c := by
  unfold emitExec execFront execAfterCall execReturn execRejects execContinue
  simp only [List.append_assoc]

/-- `ExecHelper` up to the call of the script -/
def helperFront : Buffer :=
  label .execHelper ++ asm (emitDebugPrint c "ExecHelper()") ++
  asm (execAddress ++ execHelperSave ++ execHelperParams ++ execHelperSwitch ++
    execHelperReset) ++
  emit (.callReg .eax)

def helperReturn : Buffer :=
  label .callReturn ++ asm callReturnError ++
  (if c.enableSleep then asm [.cmp edi AMX_ERR_SLEEP] ++ emit (.jcc .ne .execExit) else []) ++
  asm callReturnSync

def helperExit : Buffer :=
  label .execExit ++ asm execExitSwitch ++
  asm (emitDebugPrint c "ExecHelper: returned from entry point") ++
  asm [.pop edi, .pop esi] ++ emit .ret

theorem emitExecHelper_eq : emitExecHelper c =
    helperFront c ++ helperReturn c ++ helperExit c := by
  unfold emitExecHelper helperFront helperReturn helperExit
  simp only [List.append_assoc]

end

namespace Jit
variable (jit : Jit)

/-- the parts of `Exec` lie one behind the other -/
theorem exec_parts : ∃ a b d e f g,
    Seg jit.runtimeFetch jit.image.addr a (execFront jit.compiler) b ∧
    Seg jit.runtimeFetch jit.image.addr b execAfterCall d ∧
    Seg jit.runtimeFetch jit.image.addr d execReturn e ∧
    Seg jit.runtimeFetch jit.image.addr e execRejects f ∧
    Seg jit.runtimeFetch jit.image.addr f (execContinue jit.compiler) g := by
  obtain ⟨a, g, h⟩ := jit.part (jit.infix_runtime (by simp [Jit.parts])
    (List.infix_refl (emitExec jit.compiler)))
  rw [emitExec_eq] at h
  obtain ⟨f, h, h5⟩ := seg_append.mp h
  obtain ⟨e, h, h4⟩ := seg_append.mp h
  obtain ⟨d, h, h3⟩ := seg_append.mp h
  obtain ⟨b, h1, h2⟩ := seg_append.mp h
  exact ⟨a, b, d, e, f, g, h1, h2, h3, h4, h5⟩

theorem helper_parts : ∃ a b d e,
    Seg jit.runtimeFetch jit.image.addr a (helperFront jit.compiler) b ∧
    Seg jit.runtimeFetch jit.image.addr b (helperReturn jit.compiler) d ∧
    Seg jit.runtimeFetch jit.image.addr d (helperExit jit.compiler) e := by
  obtain ⟨a, e, h⟩ := jit.part (jit.infix_runtime (by simp [Jit.parts])
    (List.infix_refl (emitExecHelper jit.compiler)))
  rw [emitExecHelper_eq] at h
  obtain ⟨d, h, h3⟩ := seg_append.mp h
  obtain ⟨b, h1, h2⟩ := seg_append.mp h
  exact ⟨a, b, d, e, h1, h2, h3⟩

end Jit

namespace Env
variable (env : Env)

/-! ## the native stack -/

/-- what `Exec` has saved: the registers of the caller, below the return address -/
structure Saved (u : Machine) (m : Mem) : Prop where
  ret : m.read32 u.esp = u.top
  ebp : m.read32 (u.esp - 4) = u.ebp
  esi : m.read32 (u.esp - 28) = u.esi
  ebx : m.read32 (u.esp - 32) = u.ebx

variable {env} {R : Machine → Machine → Prop} {P Q : Machine → Prop} {u s : Machine}

/-- a word of a region -/
theorem read32_sub {m m' : Mem} {p : Word} {n i : Nat} (h : Set.EqOn m' m (bytes p n))
    (hi : i + 4 ≤ n) : m'.read32 (p + BitVec.ofNat 32 i) = m.read32 (p + BitVec.ofNat 32 i) :=
  EqOn.read32 h (bytes_sub hi)

theorem Saved.congr {m m' : Mem} (hs : Saved u m) (h : Set.EqOn m' m (bytes (u.esp - 32) 36)) :
    Saved u m' := by
  have e32 : u.esp - 32 + BitVec.ofNat 32 32 = u.esp := BitVec.sub_add_cancel _ _
  have e28 : u.esp - 32 + BitVec.ofNat 32 28 = u.esp - 4 := sub_add_lit _ (by decide)
  have e4 : u.esp - 32 + BitVec.ofNat 32 4 = u.esp - 28 := sub_add_lit _ (by decide)
  have e0 : u.esp - 32 + BitVec.ofNat 32 0 = u.esp - 32 := BitVec.add_zero _
  have h32 := read32_sub h (i := 32) (by omega)
  have h28 := read32_sub h (i := 28) (by omega)
  have h4 := read32_sub h (i := 4) (by omega)
  have h0 := read32_sub h (i := 0) (by omega)
  rw [e32] at h32
  rw [e28] at h28
  rw [e4] at h4
  rw [e0] at h0
  exact ⟨h32.trans hs.ret, h28.trans hs.ebp, h4.trans hs.esi, h0.trans hs.ebx⟩

theorem execRestoreReset_run (adr : Label → Option Word) (s : Machine)
    (hesi : s.esi = s.vars.amxPtr) :
    runSeq adr execRestoreReset s = some { s with
      eax := s.vars.amx.error,
      vars := { s.vars with
        rib := { s.vars.rib with
          resetEbp := s.mem.read32 (s.ebp + -8), resetEsp := s.mem.read32 (s.ebp + -12),
          resetStk := s.mem.read32 (s.ebp + -16), resetHea := s.mem.read32 (s.ebp + -20) }
        amx := { s.vars.amx with error := AMX_ERR_NONE } } } := by
  simp only [execRestoreReset, runSeq_cons, runSeq_nil, exec, State.load, State.store, State.get,
    State.set, State.ea, ptr, Option.bind_some, Cells.get, Cells.ptr, Cells.set, Vars.get, Vars.set,
    Vars.ptr, RuntimeInfoBlock.set, Amx.get, Amx.set, hesi, if_pos]

/-- from the label `return` to the caller -/
theorem until_leave (hD : env.Drives R P) (hs : Saved u s.mem)
    (hpc : env.jit.image.addr .return' = some s.pc) (hebp : s.ebp = u.esp - 4)
    (hesp : s.esp = u.esp - 32)
    (h : Until R P Q { s with
      ebx := u.ebx, esi := u.esi, ebp := u.ebp, esp := u.esp + 4, pc := u.top }) :
    Until R P Q s := by
  obtain ⟨_, _, d, _, _, _, -, -, hseg, -, -⟩ := env.jit.exec_parts
  unfold execReturn at hseg
  simp only [List.append_assoc] at hseg
  obtain ⟨hl, hseg⟩ := seg_label.mp hseg
  have hd : s.pc = d := Option.some.inj (hpc.symm.trans hl)
  obtain ⟨x, hs1, n, hf, -⟩ := seg_append.mp hseg
  have e1 : u.esp - 32 + 4 = u.esp - 28 := sub_add_lit _ (by decide)
  have e2 : u.esp - 4 + 4 = u.esp := BitVec.sub_add_cancel _ _
  have hrun : runSeq env.jit.image.addr execLeave s = some { s with
      ebx := u.ebx, esi := u.esi, ebp := u.ebp, esp := u.esp } := by
    simp only [execLeave, runSeq_cons, runSeq_nil, exec, State.load, State.store, State.get,
      State.set, State.top, Option.bind_some, hebp, hesp, e1, e2, hs.ebx, hs.esi, hs.ebp]
  refine until_run hD.driven hD.passes hs1 hd hrun ?_
  refine until_instr hD.driven hD.passes hf (not_call fun l => by simp) rfl ?_
  unfold State.top at h ⊢
  dsimp only at h ⊢
  have hret := hs.ret
  unfold State.top at hret
  rwa [hret]

/-! ## from `after_call` -/

/-- the memory after the return value has been stored -/
def storeRetval (u : Machine) (v : Word) (m : Mem) : Mem :=
  if u.mem.read32 (u.esp + 8) = 0 then m else m.write32 (u.mem.read32 (u.esp + 8)) v

/-- the state in which `Exec`, entered in `u`, has returned from the state `s` -/
def exited (u s : Machine) (m : Mem) (fl : Flags) : Machine :=
  { s with
    eax := s.vars.amx.error, ecx := u.mem.read32 (u.esp + 8), ebx := u.ebx, esi := u.esi,
    ebp := u.ebp, esp := u.esp + 4, flags := fl, mem := storeRetval u s.eax m,
    vars := { s.vars with
      rib := { s.vars.rib with
        resetEbp := m.read32 (u.esp - 12), resetEsp := m.read32 (u.esp - 16),
        resetStk := m.read32 (u.esp - 20), resetHea := m.read32 (u.esp - 24) }
      amx := { s.vars.amx with error := AMX_ERR_NONE } },
    pc := u.top }

/-- the return value is not stored in the frame -/
theorem storeRetval_eqOn (hu : env.Entry u) (v : Word) (m : Mem) :
    Set.EqOn (storeRetval u v m) m (below (u.esp + 12) (env.need + 12)) := by
  unfold storeRetval
  split
  · exact fun _ _ => rfl
  · rename_i h
    exact eqOn_write v (hu.retval.resolve_left h)

theorem until_afterCall (hD : env.Drives R P) (hu : env.Entry u) (hs : Saved u s.mem)
    (hr : s.mem.read32 (u.esp + 8) = u.mem.read32 (u.esp + 8))
    (hpc : env.jit.image.addr .afterCall = some s.pc) (hebp : s.ebp = u.esp - 4)
    (hesp : s.esp = u.esp - 32) (hesi : s.esi = s.vars.amxPtr)
    (h : ∀ fl : Flags, fl.df = s.flags.df → Until R P Q (exited u s s.mem fl)) :
    Until R P Q s := by
  obtain ⟨_, b, d, _, _, _, -, hcall, hret, -, -⟩ := env.jit.exec_parts
  unfold execAfterCall at hcall
  simp only [List.append_assoc] at hcall
  obtain ⟨hl, hcall⟩ := seg_label.mp hcall
  obtain rfl : s.pc = b := Option.some.inj (hpc.symm.trans hl)
  obtain ⟨x1, hs1, hcall⟩ := seg_append.mp hcall
  obtain ⟨x2, hs2, hcall⟩ := seg_append.mp hcall
  obtain ⟨x3, hs3, hcall⟩ := seg_append.mp hcall
  obtain ⟨hfin, hs4⟩ := seg_label.mp hcall
  obtain ⟨hretl, -⟩ := seg_label.mp (by simpa only [execReturn, List.append_assoc] using hret)
  set r := u.mem.read32 (u.esp + 8) with hrdef
  -- from the label `finish` on
  have hfinish (fl : Flags) (hfl : fl.df = s.flags.df) :
      Until R P Q { s with
        ecx := r, flags := fl, mem := storeRetval u s.eax s.mem, pc := x3 } := by
    have heq := storeRetval_eqOn hu s.eax s.mem
    have hcell {i : Nat} (h4 : 4 ≤ i) (hi : i ≤ 44) :
        (storeRetval u s.eax s.mem).read32 (u.esp + 12 - BitVec.ofNat 32 i) =
          s.mem.read32 (u.esp + 12 - BitVec.ofNat 32 i) :=
      EqOn.read32 heq (bytes_below h4 (by unfold need; omega))
    have h24 := hcell (i := 24) (by omega) (by omega)
    have h28 := hcell (i := 28) (by omega) (by omega)
    have h32 := hcell (i := 32) (by omega) (by omega)
    have h36 := hcell (i := 36) (by omega) (by omega)
    have e24 : u.esp + 12 - BitVec.ofNat 32 24 = u.esp - 12 := add_sub_lit _ (by decide)
    have e8 : s.ebp + -8 = u.esp - 12 := by
      rw [hebp]
      exact sub_add_lit _ (by decide)
    have e28 : u.esp + 12 - BitVec.ofNat 32 28 = u.esp - 16 := add_sub_lit _ (by decide)
    have e12 : s.ebp + -12 = u.esp - 16 := by
      rw [hebp]
      exact sub_add_lit _ (by decide)
    have e32 : u.esp + 12 - BitVec.ofNat 32 32 = u.esp - 20 := add_sub_lit _ (by decide)
    have e16 : s.ebp + -16 = u.esp - 20 := by
      rw [hebp]
      exact sub_add_lit _ (by decide)
    have e36 : u.esp + 12 - BitVec.ofNat 32 36 = u.esp - 24 := add_sub_lit _ (by decide)
    have e20 : s.ebp + -20 = u.esp - 24 := by
      rw [hebp]
      exact sub_add_lit _ (by decide)
    rw [e24] at h24
    rw [e28] at h28
    rw [e32] at h32
    rw [e36] at h36
    have hrun := execRestoreReset_run env.jit.image.addr { s with
      ecx := r, flags := fl, mem := storeRetval u s.eax s.mem, pc := x3 } hesi
    dsimp only at hrun
    rw [e8, e12, e16, e20, h24, h28, h32, h36] at hrun
    have hsaved : Saved u (storeRetval u s.eax s.mem) := by
      refine hs.congr (heq.mono ?_)
      have e44 : u.esp + 12 - BitVec.ofNat 32 44 = u.esp - 32 := add_sub_lit _ (by decide)
      rw [← e44]
      exact bytes_below (by omega) (by unfold need; omega)
    refine until_run hD.driven hD.passes hs4 rfl hrun ?_
    exact until_leave hD hsaved hretl hebp hesp (h fl hfl)
  have e1 : u.esp - 4 + 12 = u.esp + 8 := by
    rw [sub_add_eq_add_sub, add_sub_assoc]
    rfl
  have hrun : runSeq env.jit.image.addr execTestRetval s = some { s with
      ecx := r, flags := s.flags.logic (r &&& r) } := by
    simp only [execTestRetval, runSeq_cons, runSeq_nil, exec, State.load, State.store, State.get,
      State.set, State.ea, ptr, Option.bind_some, Option.map_some, hebp, e1, hr]
  refine until_run hD.driven hD.passes hs1 rfl hrun (until_jcc hD hs2 hfin (fun ht => ?_) fun hn => ?_)
  · have h0 : r = 0 := of_decide_eq_true ((test_e s.flags r).symm.trans ht)
    have hm : storeRetval u s.eax s.mem = s.mem := if_pos h0
    have := hfinish (s.flags.logic (r &&& r)) rfl
    rwa [hm] at this
  · have h0 : r ≠ 0 := of_decide_eq_false ((test_e s.flags r).symm.trans hn)
    have hm : storeRetval u s.eax s.mem = s.mem.write32 r s.eax := if_neg h0
    have hz : r + 0 = r := BitVec.add_zero r
    have hstore : runSeq env.jit.image.addr execStoreRetval
        { s with ecx := r, flags := s.flags.logic (r &&& r), pc := x2 } = some { s with
          ecx := r, flags := s.flags.logic (r &&& r), mem := storeRetval u s.eax s.mem, pc := x2 } := by
      simp only [execStoreRetval, runSeq_cons, runSeq_nil, exec, State.load, State.store, State.get,
        State.ea, ptr, Option.bind_some, hz, hm]
    exact until_run hD.driven hD.passes hs3 rfl hstore (hfinish (s.flags.logic (r &&& r)) rfl)

/-! ## frames -/

/-- how the script was entered: from its start, or to continue after a sleep -/
inductive Mode where
  | start | continue'
  deriving DecidableEq

/-- where the native stack pointer of the helper is, below the one of `Exec` -/
def Mode.depth : Mode → Word
  | .start => 64
  | .continue' => 60

/-- A local variable of `Exec`, `d` bytes below its return address, is for the old value `v`, but a
continued `Exec` does not set it: it holds what was on the stack before. -/
def Mode.saved (k : Mode) (u : Machine) (v d : Word) : Word :=
  match k with
  | .start => v
  | .continue' => u.mem.read32 (u.esp - d)

variable (env)

/-- the code behind the call of the helper leads to `after_call` -/
def BackTo (back : Word) : Mode → Prop
  | .start => ∃ e, Seg env.jit.runtimeFetch env.jit.image.addr back (asm [.add esp (4 : Word)]) e ∧
      env.jit.image.addr .afterCall = some e
  | .continue' => ∃ e, Seg env.jit.runtimeFetch env.jit.image.addr back (emit (.jmp .afterCall)) e

/-- what the helper has pushed, and what `Exec` has saved -/
structure Frame (u : Machine) (k : Mode) (m : Mem) : Prop where
  saved : Saved u m
  amxEsp : m.read32 (u.esp - k.depth) = u.vars.rib.amxEsp
  amxEbp : m.read32 (u.esp - k.depth + 4) = u.vars.rib.amxEbp
  esp : m.read32 (u.esp - k.depth + 8) = u.vars.rib.esp
  ebp : m.read32 (u.esp - k.depth + 12) = u.vars.rib.ebp
  edi : m.read32 (u.esp - k.depth + 16) = u.edi
  esi : m.read32 (u.esp - k.depth + 20) = u.vars.amxPtr
  back : BackTo env (m.read32 (u.esp - k.depth + 24)) k
  retval : m.read32 (u.esp + 8) = u.mem.read32 (u.esp + 8)
  resetEbp : m.read32 (u.esp - 12) = k.saved u u.vars.rib.resetEbp 12
  resetEsp : m.read32 (u.esp - 16) = k.saved u u.vars.rib.resetEsp 16
  resetStk : m.read32 (u.esp - 20) = k.saved u u.vars.rib.resetStk 20
  resetHea : m.read32 (u.esp - 24) = k.saved u u.vars.rib.resetHea 24
  above : ∀ a ∈ upTo env.top (u.esp + 12), m a = u.mem a

/-- The runtime information block in the frame of an `Exec` that was entered in `u`. -/
structure InFrame (u : Machine) (k : Mode) (s : Machine) : Prop where
  frame : Frame env u k s.mem
  esp : s.vars.rib.esp = u.esp - k.depth
  ebp : s.vars.rib.ebp = u.esp - 4
  amx : s.vars.rib.amx = s.vars.amxPtr
  amxPtr : s.vars.amxPtr = u.vars.amxPtr
  callback : s.vars.amx.callback = env.callback
  base : dataBase s.vars = dataBase u.vars
  ebx : s.ebx = dataBase u.vars

/-- the state in which `Exec`, entered in `u`, has returned from the state `s` at `exec_exit` -/
def finished (u s : Machine) (m : Mem) (fl : Flags) : Machine :=
  { s with
    eax := s.vars.amx.error, ecx := u.mem.read32 (u.esp + 8), ebx := u.ebx, esi := u.esi,
    edi := u.edi, ebp := u.ebp, esp := u.esp + 4, flags := fl, mem := storeRetval u s.eax m,
    vars := { s.vars with
      rib := { s.vars.rib with
        ebp := u.vars.rib.ebp, esp := u.vars.rib.esp,
        amxEbp := u.vars.rib.amxEbp, amxEsp := u.vars.rib.amxEsp,
        resetEbp := m.read32 (u.esp - 12), resetEsp := m.read32 (u.esp - 16),
        resetStk := m.read32 (u.esp - 20), resetHea := m.read32 (u.esp - 24) }
      amx := { s.vars.amx with error := AMX_ERR_NONE } },
    pc := u.top }

variable {env} {k : Mode}

/-! ### the frame on the stack -/

/-- the frame and the arguments lie on the native stack -/
theorem Entry.depth (hu : env.Entry u) (k : Mode) :
    (env.top - (u.esp - k.depth)).toNat = (env.top - u.esp).toNat + k.depth.toNat ∧
      (u.esp - k.depth - env.lo).toNat + k.depth.toNat = (u.esp - env.lo).toNat ∧
      (env.top - env.lo).toNat = (u.esp - env.lo).toNat + (env.top - u.esp).toNat := by
  obtain ⟨h1, h2⟩ := hu.room
  unfold need at h1
  have hd : k.depth.toNat ≤ 64 := by
    cases k <;> decide
  simp only [BitVec.toNat_sub] at h1 h2 ⊢
  omega

theorem upTo_frame (hu : env.Entry u) (k : Mode) :
    upTo env.top (u.esp - k.depth) ⊆ upTo env.top env.lo := by
  obtain ⟨h1, h2, h3⟩ := hu.depth k
  intro a ha
  have ha' : (a - (u.esp - k.depth)).toNat < (env.top - (u.esp - k.depth)).toNat := ha
  show (a - env.lo).toNat < (env.top - env.lo).toNat
  rw [h1] at ha'
  rw [h3]
  simp only [BitVec.toNat_sub] at ha' h2 ⊢
  omega

theorem frame_upTo (hu : env.Entry u) (k : Mode) :
    bytes (u.esp - k.depth) (12 + k.depth.toNat) ⊆ upTo env.top (u.esp - k.depth) ∧
      upTo env.top (u.esp + 12) ⊆ upTo env.top (u.esp - k.depth) := by
  obtain ⟨h1, -, h3⟩ := hu.depth k
  have hargs := hu.args
  have hlt : (env.top - u.esp).toNat + k.depth.toNat < 2^32 := by
    rw [← h1]
    exact BitVec.isLt _
  refine ⟨bytes_mono (by omega), fun a ha => ?_⟩
  have h12 : (12 : Word).toNat = 12 := rfl
  have ha' : (a - (u.esp + 12)).toNat < (env.top - (u.esp + 12)).toNat := ha
  show (a - (u.esp - k.depth)).toNat < (env.top - (u.esp - k.depth)).toNat
  rw [h1]
  simp only [BitVec.toNat_sub, BitVec.toNat_add, h12] at ha' hargs hlt ⊢
  omega

/-- a word at a distance from the stack pointer of the helper -/
theorem read32_at {m m' : Mem} {p a v : Word} {n : Nat} (h : Set.EqOn m' m (bytes p n))
    (ha : a - p = v) (hv : v.toNat + 4 ≤ n) : m'.read32 a = m.read32 a := by
  have he : p + BitVec.ofNat 32 v.toNat = a := by
    rw [← ha, BitVec.ofNat_toNat, BitVec.setWidth_eq]
    exact add_sub_cancel p a
  rw [← he]
  exact read32_sub h hv

theorem Frame.congr {m m' : Mem} (hu : env.Entry u) (hf : Frame env u k m)
    (h : Set.EqOn m' m (upTo env.top (u.esp - k.depth))) : Frame env u k m' := by
  obtain ⟨hsub, habove⟩ := frame_upTo hu k
  have hb := h.mono hsub
  have h60 : 60 ≤ k.depth.toNat := by
    cases k <;> decide
  have hcell (v : Word) (hv : v.toNat + 4 ≤ 72) :
      m'.read32 (u.esp - k.depth + v) = m.read32 (u.esp - k.depth + v) :=
    read32_at hb (add_sub_cancel_left _ v) (by omega)
  have h0 : m'.read32 (u.esp - k.depth) = m.read32 (u.esp - k.depth) :=
    read32_at hb (sub_self _) (by
      show 0 + 4 ≤ _
      omega)
  have hdown (v : Word) (hv : (k.depth - v).toNat + 4 ≤ 12 + k.depth.toNat) :
      m'.read32 (u.esp - v) = m.read32 (u.esp - v) :=
    read32_at hb (sub_sub_sub_cancel_left _ _ _) hv
  have hret : m'.read32 u.esp = m.read32 u.esp := by
    refine read32_at hb (sub_sub_cancel _ _) ?_
    omega
  have hretval : m'.read32 (u.esp + 8) = m.read32 (u.esp + 8) := by
    have he : u.esp + 8 - (u.esp - k.depth) = 8 + k.depth := by
      rw [sub_sub_eq_add_sub, add_assoc, add_sub_cancel_left]
    refine read32_at hb he ?_
    cases k <;> decide
  have hback := hcell 24 (by decide)
  refine ⟨⟨hret.trans hf.saved.ret, ?_, ?_, ?_⟩, h0.trans hf.amxEsp,
    (hcell 4 (by decide)).trans hf.amxEbp, (hcell 8 (by decide)).trans hf.esp,
    (hcell 12 (by decide)).trans hf.ebp, (hcell 16 (by decide)).trans hf.edi,
    (hcell 20 (by decide)).trans hf.esi, ?_, hretval.trans hf.retval, ?_, ?_, ?_, ?_, ?_⟩
  · exact (hdown 4 (by cases k <;> decide)).trans hf.saved.ebp
  · exact (hdown 28 (by cases k <;> decide)).trans hf.saved.esi
  · exact (hdown 32 (by cases k <;> decide)).trans hf.saved.ebx
  · rw [hback]
    exact hf.back
  · exact (hdown 12 (by cases k <;> decide)).trans hf.resetEbp
  · exact (hdown 16 (by cases k <;> decide)).trans hf.resetEsp
  · exact (hdown 20 (by cases k <;> decide)).trans hf.resetStk
  · exact (hdown 24 (by cases k <;> decide)).trans hf.resetHea
  · exact fun a ha => (h (habove ha)).trans (hf.above a ha)

/-- from the address behind the call of the helper to `after_call` -/
theorem until_back (hD : env.Drives R P) (hb : BackTo env s.pc k)
    (hesp : s.esp = u.esp - k.depth + 28)
    (h : ∀ (a : Word) (fl : Flags), env.jit.image.addr .afterCall = some a →
      fl.df = s.flags.df →
      Until R P Q { s with esp := u.esp - 32, flags := fl, pc := a }) : Until R P Q s := by
  obtain ⟨_, b, _, _, _, _, -, hcall, -, -, -⟩ := env.jit.exec_parts
  unfold execAfterCall at hcall
  simp only [List.append_assoc] at hcall
  obtain ⟨hl, -⟩ := seg_label.mp hcall
  cases k with
  | start =>
    obtain ⟨e, hs1, he⟩ := hb
    have e1 : u.esp - 64 + 28 + 4 = u.esp - 32 := by
      rw [sub_add_lit u.esp (c := 36) (by decide), sub_add_lit u.esp (c := 32) (by decide)]
    have hrun : runSeq env.jit.image.addr ([.add esp (4 : Word)] : Code) s = some { s with
        esp := u.esp - 32, flags := s.flags.add (u.esp - 64 + 28) 4 } := by
      have hesp' : s.esp = u.esp - 64 + 28 := hesp
      simp only [runSeq_cons, runSeq_nil, exec, State.alu, State.load, State.store, State.get,
        State.set, Option.bind_some, Option.map_some, hesp', e1]
    exact until_run hD.driven hD.passes hs1 rfl hrun (h e _ he rfl)
  | continue' =>
    obtain ⟨e, hs1⟩ := hb
    refine until_jmp hD hs1 hl ?_
    have hesp' : s.esp = u.esp - 32 := by
      rw [hesp]
      exact sub_add_lit u.esp (by decide)
    have := h b s.flags hl rfl
    rwa [← hesp'] at this

theorem execExitSwitch_run (adr : Label → Option Word) (s : Machine) (p : Word)
    (h : s.vars.rib.esp = p) :
    runSeq adr execExitSwitch s = some { s with
      ebp := s.vars.rib.ebp, esp := p + 16,
      vars := { s.vars with
        rib := { s.vars.rib with
          amxEsp := s.mem.read32 p, amxEbp := s.mem.read32 (p + 4), esp := s.mem.read32 (p + 8),
          ebp := s.mem.read32 (p + 12) } } } := by
  have h4 : p + 4 + 4 = p + 8 := add_lit_lit p 4 4
  have h8 : p + 8 + 4 = p + 12 := add_lit_lit p 8 4
  have h12 : p + 12 + 4 = p + 16 := add_lit_lit p 12 4
  simp only [execExitSwitch, runSeq_cons, runSeq_nil, exec, State.load, State.store, State.get,
    State.set, State.top, Option.bind_some, Cells.get, Cells.set, Vars.get, Vars.set,
    RuntimeInfoBlock.get, RuntimeInfoBlock.set, h, h4, h8, h12]

theorem until_execExit (hD : env.Drives R P) (hu : env.Entry u) (hs : InFrame env u k s)
    (hpc : env.jit.image.addr .execExit = some s.pc)
    (h : ∀ (m : Mem) (fl : Flags),
      Set.EqOn m s.mem (below (u.esp - k.depth + 16) (env.window + 32))ᶜ →
      Until R P Q (finished u s m fl)) : Until R P Q s := by
  obtain ⟨_, _, d, _, -, -, hexit⟩ := env.jit.helper_parts
  unfold helperExit at hexit
  simp only [List.append_assoc] at hexit
  obtain ⟨hl, hexit⟩ := seg_label.mp hexit
  obtain rfl : s.pc = d := Option.some.inj (hpc.symm.trans hl)
  obtain ⟨x1, hs1, hexit⟩ := seg_append.mp hexit
  obtain ⟨x2, hs2, hexit⟩ := seg_append.mp hexit
  obtain ⟨x3, hs3, n, hf, -⟩ := seg_append.mp hexit
  have hrun := execExitSwitch_run env.jit.image.addr s _ hs.esp
  rw [hs.frame.amxEsp, hs.frame.amxEbp, hs.frame.esp, hs.frame.ebp] at hrun
  refine until_run hD.driven hD.passes hs1 rfl hrun ?_
  refine until_debugPrint hD hs2 fun fl m hfl hm => ?_
  dsimp only at hm hfl ⊢
  have hw := env.window_le
  -- the words from the stack pointer on
  have hm' : Set.EqOn m s.mem (bytes (u.esp - k.depth + 16) 128) :=
    hm.mono (Set.subset_compl_iff_disjoint_left.mpr (below_disjoint (by omega)))
  have e4 : u.esp - k.depth + 16 + 4 = u.esp - k.depth + 20 := add_assoc _ _ _
  have e8 : u.esp - k.depth + 20 + 4 = u.esp - k.depth + 24 := add_assoc _ _ _
  have e12 : u.esp - k.depth + 24 + 4 = u.esp - k.depth + 28 := add_assoc _ _ _
  have h16 : m.read32 (u.esp - k.depth + 16) = u.edi := by
    rw [← hs.frame.edi]
    exact EqOn.read32 hm' (bytes_mono (by omega))
  have h20 : m.read32 (u.esp - k.depth + 20) = u.vars.amxPtr := by
    rw [← hs.frame.esi, ← e4]
    exact EqOn.read32 hm' (bytes_sub (i := 4) (by omega))
  have h24 : m.read32 (u.esp - k.depth + 24) = s.mem.read32 (u.esp - k.depth + 24) := by
    rw [← e8, ← e4, add_assoc (u.esp - k.depth + 16)]
    exact EqOn.read32 hm' (bytes_sub (i := 8) (by omega))
  have hsaved : Saved u m := by
    refine hs.frame.saved.congr (hm'.mono ?_)
    cases k with
    | start =>
      have e : u.esp - 64 + 16 + BitVec.ofNat 32 16 = u.esp - 32 := by
        rw [add_assoc]
        exact sub_add_lit _ (by decide)
      show bytes (u.esp - 32) 36 ⊆ bytes (u.esp - 64 + 16) 128
      rw [← e]
      exact bytes_sub (by omega)
    | continue' =>
      have e : u.esp - 60 + 16 + BitVec.ofNat 32 12 = u.esp - 32 := by
        rw [add_assoc]
        exact sub_add_lit _ (by decide)
      show bytes (u.esp - 32) 36 ⊆ bytes (u.esp - 60 + 16) 128
      rw [← e]
      exact bytes_sub (by omega)
  have hretval : m.read32 (u.esp + 8) = u.mem.read32 (u.esp + 8) := by
    rw [← hs.frame.retval]
    cases k with
    | start =>
      have e : u.esp - 64 + 16 + BitVec.ofNat 32 56 = u.esp + 8 := by
        rw [add_assoc, sub_add_eq_add_sub, add_sub_assoc]
        rfl
      rw [← e]
      exact EqOn.read32 hm' (bytes_sub (by omega))
    | continue' =>
      have e : u.esp - 60 + 16 + BitVec.ofNat 32 52 = u.esp + 8 := by
        rw [add_assoc, sub_add_eq_add_sub, add_sub_assoc]
        rfl
      rw [← e]
      exact EqOn.read32 hm' (bytes_sub (by omega))
  have hpop (t : Machine) (hmem : t.mem = m) (hesp : t.esp = u.esp - k.depth + 16) :
      runSeq env.jit.image.addr ([.pop edi, .pop esi] : Code) t = some { t with
        edi := u.edi, esi := u.vars.amxPtr, esp := u.esp - k.depth + 24 } := by
    simp only [runSeq_cons, runSeq_nil, exec, State.store, State.set, State.top, Option.bind_some,
      hmem, hesp, e4, e8, h16, h20]
  refine until_run hD.driven hD.passes hs3 rfl (hpop _ rfl rfl) ?_
  refine until_instr hD.driven hD.passes hf (not_call fun l => by simp) rfl ?_
  dsimp only [State.top]
  rw [h24, e12]
  refine until_back hD hs.frame.back rfl fun a fl' ha hfl' => ?_
  refine until_afterCall hD hu hsaved hretval ha hs.ebp rfl hs.amxPtr.symm fun fl'' hfl'' => ?_
  exact h m fl'' hm

end Env

end AmxJit
