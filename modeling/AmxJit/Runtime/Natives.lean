import AmxJit.Runtime.Existence

/-!
# Native calls

* `CompilerImpl.callee` the host function of a native call;
* `request_code`       the code of the call pushes a register or a constant, and calls a helper;
* `invokes_entered`    what the callee is called with;
* `until_behind`       the script goes on behind the call.
-/

set_option linter.constructorNameAsVariable false

namespace AmxJit
open X86 Trans Reg

/-- the native calls -/
def OpcodeID.requests : OpcodeID → Bool
  | .sysreqPri | .sysreqC | .sysreqD => true
  | _ => false

/-- where the native leaves its result: the callback through its pointer `result`, a native in `eax` -/
def Callee.result (c t : Machine) : Callee → Word
  | .callback => t.mem.read32 (c.mem.read32 (c.esp + 12))
  | .native => t.eax

/-- which host function is called in the state `c`: the index that the callback is given, or the address
of the native -/
def Callee.which (c : Machine) : Callee → Word
  | .callback => c.mem.read32 (c.esp + 8)
  | .native => c.pc

theorem Callee.pri_iff {c t : Machine} {f : Callee} :
    f.pri t = f.result c t ↔ f = .native ∨ t.mem.read32 t.ecx = f.result c t := by
  cases f with
  | callback => exact ⟨.inr, fun h => h.resolve_left (by simp)⟩
  | native => exact ⟨fun _ => .inl rfl, fun _ => rfl⟩

/-- the host function that a native call calls, and its index or its address; `pri` is PRI -/
def CompilerImpl.callee (c : CompilerImpl) (r : AmxRef) (i : Instruction) (pri : Word) :
    Callee × Word :=
  match i.opcode with
  | .sysreqC =>
    if r.amx.sysreqD ≠ 0 ∧ c.enableSysreqD ∧ r.getNativeAddress i.operand ≠ 0 then
      (.native, r.getNativeAddress i.operand)
    else (.callback, i.operand)
  | .sysreqD => (.native, i.operand)
  | _ => (.callback, pri)

/-- a native call pushes a register or a constant -/
theorem request_code {c : CompilerImpl} {r : AmxRef} {i : Instruction} {b : Buffer}
    (hop : i.opcode.requests = true) (hintr : i.intrinsic r = none)
    (hb : compileInstr c r i = some b) :
    ∃ f o, b = requestCode f o ∧ (o = .reg eax ∨ ∃ v, o = .imm v) ∧
      ∀ s : Machine, (c.callee r i s.eax).1 = f ∧ s.load o = some (c.callee r i s.eax).2 := by
  unfold compileInstr controlCode at hb
  unfold Instruction.intrinsic at hintr
  unfold CompilerImpl.callee
  cases hi : i.opcode with
  | sysreqPri =>
    rw [hi] at hb
    cases hb
    exact ⟨.callback, _, rfl, .inl rfl, fun _ => ⟨rfl, rfl⟩⟩
  | sysreqC =>
    rw [hi] at hb hintr
    have hb' : emitSysreqC c r i.address i.operand = some b := hb
    have hintr' : emitIntrinsic r (r.getNativeName i.operand) i.address = none := hintr
    unfold emitSysreqC at hb'
    dsimp only at hb'
    rw [hintr'] at hb'
    by_cases h0 : r.getNativeName i.operand = 0
    · rw [if_pos h0] at hb'
      exact absurd hb' (by simp)
    · rw [if_neg h0] at hb'
      by_cases hd : r.amx.sysreqD ≠ 0 ∧ c.enableSysreqD ∧ r.getNativeAddress i.operand ≠ 0
      · have hb'' := (if_pos hd).symm.trans hb'
        cases hb''
        refine ⟨.native, _, rfl, .inr ⟨_, rfl⟩, fun _ => ?_⟩
        rw [if_pos hd]
        exact ⟨rfl, rfl⟩
      · have hb'' := (if_neg hd).symm.trans hb'
        cases hb''
        refine ⟨.callback, _, rfl, .inr ⟨_, rfl⟩, fun _ => ?_⟩
        rw [if_neg hd]
        exact ⟨rfl, rfl⟩
  | sysreqD =>
    rw [hi] at hb hintr
    have hb' : emitSysreqD r i.address i.operand = some b := hb
    have hintr' : emitIntrinsic r (r.getNativeName (r.findNative i.operand)) i.address = none :=
      hintr
    unfold emitSysreqD at hb'
    dsimp only at hb'
    rw [hintr'] at hb'
    by_cases h0 : r.getNativeName (r.findNative i.operand) = 0
    · rw [if_pos h0] at hb'
      exact absurd hb' (by simp)
    · rw [if_neg h0] at hb'
      cases hb'
      exact ⟨.native, _, rfl, .inr ⟨_, rfl⟩, fun _ => ⟨rfl, rfl⟩⟩
  | _ =>
    rw [hi] at hop
    exact absurd hop (by decide)

namespace Env

variable {env : Env} {X : Machine → Machine → Prop} {u s t c : Machine} {k : Mode} {f : Callee}

theorem callee_inj {f g : Callee} {pc : Word} (hf : env.CalleePc pc f) (hg : env.CalleePc pc g) :
    f = g := by
  cases f with
  | callback =>
    cases g with
    | callback => rfl
    | native => exact absurd hf (env.natives_ne _ hg).1
  | native =>
    cases g with
    | callback => exact absurd hg (env.natives_ne _ hf).1
    | native => rfl

/-- from the code of a native call to the first host function -/
theorem firsts_request {o : Opnd Cell} {ret v : Word} (hu : env.Entry u)
    (hs : InFrame env u k s) (hin : env.jit.InScript s.pc)
    (hseg : Seg env.jit.image.fetch env.jit.image.addr s.pc (requestCode f o) ret)
    (hload : s.load o = some v) :
    Ends (Before (fun a => env.HostPc a.pc) (Step env X)) (fun a => env.HostPc a.pc)
      (fun c => ∃ a, Entered env u k f (requested s v ret a) c) s := by
  obtain ⟨y, ⟨x, hf, hx⟩, n, hcall, hn⟩ := seg_append.mp hseg
  obtain rfl : x = y := hx
  obtain rfl : n = ret := hn
  have hR (a b : Machine) (h : Before (fun a => env.HostPc a.pc) (Step env X) a b) :
      Step env X a b := h.2
  have hT (a : Machine) (h : env.jit.InScript a.pc) : ¬ env.HostPc a.pc :=
    fun hh => env.jit.not_inScript (env.outside_of_hostPc hh) h
  have hpush : step env.jit.image.addr (.push o : Instr Cell Label) x s =
      some { s with esp := s.esp - 4, mem := s.mem.write32 (s.esp - 4) v, pc := x } := by
    refine (step_of_exec (t := s.push v) _ ?_ x).trans rfl
    show (s.load o).map s.push = _
    rw [hload]
    rfl
  have hin' := env.jit.inScript_next hin hf
  refine ends_script hR hT hu hs hin hf hpush fun hs1 _ => ?_
  have hl : f.helper ∈ scriptCalls := by
    cases f <;> simp [scriptCalls, Callee.helper]
  obtain ⟨a, ha⟩ := env.jit.callee_addr f
  have hstep : step env.jit.image.addr (.call f.helper : Instr Cell Label) n
      { s with esp := s.esp - 4, mem := s.mem.write32 (s.esp - 4) v, pc := x } =
      some (requested s v n a) := by
    show (env.jit.image.addr f.helper).map _ = _
    rw [ha]
    rfl
  refine ends_script hR hT hu hs1 hin' hcall hstep fun hs2 hss => ?_
  obtain ⟨hret, hroom⟩ := hss.call _ hl ha
  have hD := env.drives X
  refine Until.firsts (P := env.Plain) ?_ fun t ht => ht.host
  cases f with
  | callback =>
    refine until_sysreqC hD hu hs2 ha hret hroom fun c hc => .now ?_
    exact .first (hostPc_callee hc.calling.pc) ⟨a, hc⟩
  | native =>
    refine until_sysreqD hD hu hs2 ha hret hroom (hss.native ha) fun c hc => .now ?_
    exact .first (hostPc_callee hc.calling.pc) ⟨a, hc⟩

/-! ## behind the call -/

/-- The callee, called in the state `c`, is given the arguments of the native call at `s`, and the
AMX registers. -/
structure Given (f : Callee) (s c : Machine) : Prop where
  params : c.mem.read32 (c.esp + f.paramsOff) = s.esp
  frm : c.vars.amx.frm = s.ebp - s.ebx
  stk : c.vars.amx.stk = s.esp - s.ebx
  hea : c.vars.amx.hea = s.vars.amx.hea

/-- The script goes on behind the native call at `s`; the callee has returned in the state `t`. -/
structure Behind (env : Env) (i : Instruction) (s t r : Machine) : Prop where
  pc : ∀ j ∈ env.jit.instrs, j.address = i.next → env.jit.At j r.pc
  script : env.jit.InScript r.pc
  alt : r.ecx = s.ecx
  frm : r.ebp = s.ebp
  stk : r.esp = s.esp
  ebx : r.ebx = s.ebx
  vars : r.vars = t.vars
  mem : Set.EqOn r.mem t.mem (bytes (s.esp - 4) 4)ᶜ

/-- the callee is the one that has been asked for -/
theorem Entered.which {v ret a : Word} (h : Entered env u k f (requested s v ret a) c) :
    f.which c = v := by
  have hcalled := h.called
  cases f with
  | callback => exact hcalled.1.trans (requested_arg s v ret a)
  | native => exact hcalled.trans (requested_arg s v ret a)

theorem Entered.given {v ret a : Word} (h : Entered env u k f (requested s v ret a) c) :
    Given f s c := by
  have hesp := sub_eight s v ret a
  refine ⟨h.params.trans hesp, ?_, ?_, ?_⟩
  · rw [h.vars]
    rfl
  · rw [h.vars]
    show (requested s v ret a).esp + 8 - s.ebx = _
    rw [hesp]
  · rw [h.vars]
    rfl

/-- the callee returns without an error -/
theorem until_behind {v ret a : Word} {i : Instruction}
    (hX : ∀ u v, Entry env u → X u v → Returned env u v) (hu : env.Entry u)
    (hs : InFrame env u k s) (hc : Entered env u k f (requested s v ret a) c)
    (hret : env.jit.InScript ret)
    (hnext : ∀ j ∈ env.jit.instrs, j.address = i.next → env.jit.At j ret) (ht : Step env X c t)
    (hok : f.error t = AMX_ERR_NONE) :
    Until (Step env X) env.Plain (fun r => r.eax = f.pri t ∧ Behind env i s t r) t := by
  obtain ⟨hframe, hback, hesp, hroom, hesi, hmem⟩ := hc.calling.behind hu hX ht
  have hread (w : Word) (hw : 4 ≤ w.toNat ∧ w.toNat ≤ 12) :
      t.mem.read32 (u.esp - k.depth - w) = c.mem.read32 (u.esp - k.depth - w) :=
    read_pushed hu k hmem hw
  have hstk : t.mem.read32 (u.esp - k.depth - 4) = s.esp := by
    rw [hread 4 (by decide), hc.stk, sub_eight]
  have hfrm : t.mem.read32 (u.esp - k.depth - 8) = s.ebp := by
    rw [hread 8 (by decide), hc.frm]
    rfl
  have halt : t.mem.read32 (u.esp - k.depth - 12) = s.ecx := by
    rw [hread 12 (by decide), hc.alt]
    rfl
  have hesi' : t.esi = ret := by
    rw [hesi, hc.esi]
    exact read32_write32_self _ _ _
  refine until_return (env.drives X) hu f hframe hback hesp hroom ?_ ?_ ?_
  · intro r hsl
    have h0 : AMX_ERR_SLEEP = AMX_ERR_NONE := hsl.2.symm.trans hok
    exact absurd h0 (by decide)
  · exact fun _ hne => absurd hok hne
  · intro r _ fl
    have hrpc : r.esi = ret := hesi'
    have hresp : r.esp = s.esp := hstk
    refine .now ⟨rfl, ?_, ?_, halt, hfrm, hresp, hframe.ebx.trans hs.ebx.symm, rfl, ?_⟩
    · intro j hj ha
      show env.jit.At j r.esi
      rw [hrpc]
      exact hnext j hj ha
    · show env.jit.InScript r.esi
      rw [hrpc]
      exact hret
    · show Set.EqOn (t.mem.write32 (r.esp - 4) r.esi) t.mem _
      rw [hresp]
      exact eqOn_write _ (Set.disjoint_compl_right_iff_subset.mpr (Set.Subset.refl _))

/-- **What a callee is called with.** -/
theorem invokes_entered {i : Instruction} (hX : ∀ u v, Entry env u → X u v → Returned env u v)
    (hu : env.Entry u) (hr : Relation.ReflTransGen (Step env X) u s) (hi : i ∈ env.jit.instrs)
    (hop : i.opcode.requests = true) (hintr : i.intrinsic env.jit.amx = none)
    (hpc : env.jit.native i.address = some s.pc) (hc : Invokes env (Step env X) f s c) :
    InFrame env u (env.mode u) s ∧ ∃ v ret a,
      Entered env u (env.mode u) f (requested s v ret a) c ∧ env.jit.InScript ret ∧
      env.jit.Pushes i ret ∧ ∀ j ∈ env.jit.instrs, j.address = i.next → env.jit.At j ret := by
  have hin := env.jit.inScript_native hpc
  have hs := spot_script hX hu hr hin
  obtain ⟨b, e, hb, hseg, hnext⟩ := Jit.code_at hi hpc
  obtain ⟨g, o, rfl, -, hcallee⟩ := request_code hop hintr hb
  obtain ⟨-, hload⟩ := hcallee s
  obtain ⟨a, hentered⟩ := firsts_request (X := X) hu hs hin hseg hload c hc.1 (hostPc_callee hc.2)
  obtain rfl := callee_inj hentered.calling.pc hc.2
  obtain ⟨x, hs1, hs2⟩ := seg_append.mp hseg
  have hret := inScript_emit (inScript_asm hin hs1) hs2
  refine ⟨hs, _, e, a, hentered, hret, ?_, hnext⟩
  obtain ⟨m, hf, rfl⟩ := hs2
  refine ⟨_, _, x, g.helper, ?_, hb, hpc, hs1, hf⟩
  cases g <;> simp [suspendingHelpers, Callee.helper]

end Env

end AmxJit
