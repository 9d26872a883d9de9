import AmxJit.Runtime.System

/-!
# Execution rules for the runtime

* `Drives R P`        `R` executes the runtime and the C functions it calls; the states passed have
                      `P`, but for the calls of `HaltHelper` (`Env.drives`: so does `Env.Step`);
* `until_callAbs`     a call of a C function;
* `until_debugPrint`, `until_lookup`   the pieces of the runtime that call one.

The rules are used backwards: what is left to show is about the state behind the piece.
-/

namespace AmxJit
open X86 Trans Reg

namespace Jit
variable (jit : Jit)

theorem scriptStart_le : jit.scriptStart ≤ jit.size := by
  obtain ⟨post, hp⟩ := jit.laid.items_eq
  unfold scriptStart size
  rw [hp, endOff_append]
  exact le_endOff _ _ _

theorem runtimeFetch_lt {pc : Word} {r : Instr Cell Label × Word}
    (h : jit.runtimeFetch pc = some r) : jit.image.offset pc < jit.scriptStart := by
  unfold runtimeFetch Image.fetchBelow at h
  by_contra hlt
  rw [if_neg hlt] at h
  exact absurd h (by simp)

/-- the runtime is not in the script, and nothing of it is outside the buffer -/
theorem runtimeFetch_inside {pc : Word} {r : Instr Cell Label × Word}
    (h : jit.runtimeFetch pc = some r) : ¬ jit.InScript pc ∧ ¬ jit.Outside pc := by
  have h1 := jit.runtimeFetch_lt h
  have h2 := jit.scriptStart_le
  unfold InScript Outside
  omega

theorem not_inScript {pc : Word} (h : jit.Outside pc) : ¬ jit.InScript pc := by
  unfold InScript
  unfold Outside at h
  omega

theorem runtimeFetch_outside {pc : Word} (h : jit.Outside pc) : jit.runtimeFetch pc = none := by
  cases hf : jit.runtimeFetch pc with
  | none => rfl
  | some r => exact absurd h (jit.runtimeFetch_inside hf).2

/-- a part of the runtime is a segment -/
theorem part {b : Buffer} (h : b <:+: jit.runtime) :
    ∃ a e, Seg jit.runtimeFetch jit.image.addr a b e := by
  obtain ⟨pre, post, hp⟩ := h
  have hseg := jit.runtime_seg
  rw [← hp] at hseg
  obtain ⟨e, h1, -⟩ := seg_append.mp hseg
  obtain ⟨a, -, h2⟩ := seg_append.mp h1
  exact ⟨a, e, h2⟩

/-- the parts of the runtime -/
def parts : List Buffer :=
  [emitRuntimeInfo, emitInstrTable jit.buffer.numEntries, emitExec jit.compiler,
    emitExecHelper jit.compiler,
    if jit.compiler.enableSleep then emitExecContHelper jit.compiler else [],
    emitHaltHelper jit.compiler, emitJumpLookup jit.compiler, emitReverseJumpLookup jit.compiler,
    emitJumpHelper, emitSysreqCHelper jit.compiler, emitSysreqDHelper jit.compiler]

theorem runtime_eq : jit.runtime = jit.parts.flatten := by
  unfold runtime emitRuntime parts
  simp only [List.flatten_cons, List.flatten_nil, List.append_nil, List.append_assoc]

theorem infix_runtime {b p : Buffer} (hp : p ∈ jit.parts) (hb : b <:+: p) :
    b <:+: jit.runtime := by
  rw [runtime_eq]
  exact hb.trans (List.infix_of_mem_flatten hp)

end Jit

namespace Env
variable (env : Env)

def HostPc (pc : Word) : Prop := pc = env.callback ∨ pc ∈ env.natives ∨ env.HostAddr pc

theorem outside_of_hostPc {pc : Word} (h : env.HostPc pc) : env.jit.Outside pc := by
  rcases h with rfl | h | h
  · exact env.callback_outside
  · exact env.natives_outside pc h
  · exact h.1

theorem hostPc_ne {pc : Word} (h : env.HostPc pc) (f : CFun) : pc ≠ env.jit.compiler.address f := by
  rcases h with rfl | h | h
  · exact env.callback_ne f
  · exact (env.natives_ne pc h).2 f
  · exact h.2.2.2 f

/-- the states of the runtime that no rule singles out -/
structure Plain (s : Machine) : Prop where
  script : ¬ env.jit.InScript s.pc
  host : ¬ env.HostPc s.pc
  halt : ∀ n, env.jit.runtimeFetch s.pc ≠ some (.call .haltHelper, n)

structure Drives (R : Machine → Machine → Prop) (P : Machine → Prop) : Prop where
  driven : Driven env.jit.runtimeFetch env.jit.image.addr R
  passes : Passes env.jit.runtimeFetch (· = .haltHelper) P
  cfun : ∀ f s, s.pc = env.jit.compiler.address f → P s ∧ ∀ t, R s t ↔ CCall env f s t

theorem drives (X : Machine → Machine → Prop) : env.Drives (Step env X) env.Plain where
  driven := by
    intro s i n hf t
    obtain ⟨hin, hout⟩ := env.jit.runtimeFetch_inside hf
    constructor
    · intro h
      cases h with
      | runtime hf' hs =>
        rw [hf] at hf'
        cases hf'
        exact hs
      | script hs _ _ _ => exact absurd hs hin
      | cfun f hpc _ =>
        rw [hpc] at hout
        exact absurd (env.cfun_outside f) hout
      | callback hpc _ =>
        rw [hpc] at hout
        exact absurd env.callback_outside hout
      | native hpc _ => exact absurd (env.natives_outside _ hpc) hout
    · exact .runtime hf
  passes := by
    intro s i n hf hi
    obtain ⟨hin, hout⟩ := env.jit.runtimeFetch_inside hf
    refine ⟨hin, fun h => hout (env.outside_of_hostPc h), fun m hm => ?_⟩
    rw [hf] at hm
    cases hm
    exact hi _ rfl rfl
  cfun := by
    intro f s hpc
    have hout : env.jit.Outside s.pc := by
      rw [hpc]
      exact env.cfun_outside f
    have hnone := env.jit.runtimeFetch_outside hout
    refine ⟨⟨env.jit.not_inScript hout, fun h => env.hostPc_ne h f hpc, fun n hn => ?_⟩, fun t => ?_⟩
    · rw [hnone] at hn
      exact absurd hn (by simp)
    · constructor
      · intro h
        cases h with
        | runtime hf' _ =>
          rw [hnone] at hf'
          exact absurd hf' (by simp)
        | script hs _ _ _ => exact absurd hs (env.jit.not_inScript hout)
        | cfun g hpc' h =>
          rw [env.cfun_inj f g (hpc.symm.trans hpc')]
          exact h
        | callback hpc' _ => exact absurd (hpc'.symm.trans hpc) (env.callback_ne f)
        | native hpc' _ => exact absurd hpc (env.hostPc_ne (.inr (.inl hpc')) f)
      · exact .cfun f hpc

/-- the value of a C function is always defined -/
theorem value_exists (x y : Word) (f : CFun) : ∃ v, env.jit.Value x y v f := by
  cases f with
  | puts => exact ⟨0, trivial⟩
  | _ => exact ⟨_, rfl⟩

variable {env} {R : Machine → Machine → Prop} {P Q : Machine → Prop} {s : Machine} {e : Word}

theorem not_call {i : Instr Cell Label} (h : ∀ l, i ≠ .call l) (l : Label) (hi : i = .call l) :
    ¬ l = Label.haltHelper := absurd hi (h l)

/-- a C function, from its first instruction -/
theorem until_cfun (hD : env.Drives R P) {f : CFun} (hpc : s.pc = env.jit.compiler.address f)
    (h : ∀ (v x y : Word) (fl : Flags) (m : Mem),
      env.jit.Value (s.mem.read32 (s.esp + 4)) (s.mem.read32 (s.esp + 8)) v f →
      fl.df = s.flags.df →
      Set.EqOn m s.mem (below (s.esp + BitVec.ofNat 32 f.frame) (env.window + f.frame))ᶜ →
      Until R P Q { s with
        eax := v, ecx := x, edx := y, flags := fl, mem := m, esp := s.esp + 4, pc := s.top }) :
    Until R P Q s := by
  obtain ⟨hp, hR⟩ := hD.cfun f s hpc
  refine .next hp ?_ fun t ht => ?_
  · obtain ⟨v, hv⟩ := env.value_exists (s.mem.read32 (s.esp + 4)) (s.mem.read32 (s.esp + 8)) f
    refine ⟨{ s with eax := v, esp := s.esp + 4, pc := s.top }, (hR _).mpr ?_⟩
    exact ⟨hv, rfl, rfl, rfl, rfl, rfl, rfl, rfl, rfl, fun _ _ => rfl⟩
  · have hc := (hR t).mp ht
    obtain ⟨eax, ecx, edx, ebx, esp, ebp, esi, edi, flags, mem, vars, pc⟩ := t
    obtain ⟨h1, h2, h3, h4, h5, h6, h7, h8, h9, h10⟩ := hc
    dsimp only at h1 h2 h3 h4 h5 h6 h7 h8 h9 h10
    subst h2 h3 h4 h5 h6 h7 h9
    exact h eax ecx edx flags mem h1 h8 h10

/-- a call of a C function with the arguments on top of the stack -/
theorem until_callAbs (hD : env.Drives R P) (f : CFun)
    (hseg : Seg env.jit.runtimeFetch env.jit.image.addr s.pc
      (emit (.callAbs (env.jit.compiler.address f))) e)
    (h : ∀ (v x y : Word) (fl : Flags) (m : Mem),
      env.jit.Value (s.mem.read32 s.esp) (s.mem.read32 (s.esp + 4)) v f →
      fl.df = s.flags.df →
      Set.EqOn m s.mem (below (s.esp + BitVec.ofNat 32 (f.frame - 4)) (env.window + f.frame))ᶜ →
      Until R P Q { s with eax := v, ecx := x, edx := y, flags := fl, mem := m, pc := e }) :
    Until R P Q s := by
  obtain ⟨n, hf, rfl⟩ := hseg
  refine until_instr hD.driven hD.passes hf (not_call fun l => by simp) rfl ?_
  refine until_cfun hD (f := f) rfl fun v x y fl m hv hfl hm => ?_
  have hframe : 8 ≤ f.frame ∧ f.frame ≤ 12 := by cases f <;> decide
  have hw := env.window_le
  have hlow : s.esp - 4 + BitVec.ofNat 32 f.frame = s.esp + BitVec.ofNat 32 (f.frame - 4) := by
    apply BitVec.eq_of_toNat_eq
    have h4 : (4 : Word).toNat = 4 := rfl
    simp only [BitVec.toNat_add, BitVec.toNat_sub, BitVec.toNat_ofNat, h4]
    omega
  have h1 : (s.mem.write32 (s.esp - 4) n).read32 (s.esp - 4 + 4) = s.mem.read32 s.esp := by
    rw [read32_write32_sep _ _ _ _ ((sep_self_add _ _).mpr (by decide)), BitVec.sub_add_cancel]
  have h8 : s.esp - 4 + 8 = s.esp + 4 := by bv_omega
  have h2 : (s.mem.write32 (s.esp - 4) n).read32 (s.esp - 4 + 8) = s.mem.read32 (s.esp + 4) := by
    rw [read32_write32_sep _ _ _ _ ((sep_self_add _ _).mpr (by decide)), h8]
  have htop : (s.mem.write32 (s.esp - 4) n).read32 (s.esp - 4) = n := read32_write32_self _ _ _
  have hesp : s.esp - 4 + 4 = s.esp := BitVec.sub_add_cancel _ _
  dsimp only [State.push, State.top] at hv hfl hm ⊢
  rw [h1, h2] at hv
  rw [hlow] at hm
  rw [htop, hesp]
  refine h v x y fl m hv hfl (hm.trans ?_)
  refine eqOn_write _ (Set.disjoint_left.mpr fun a ha hc => hc ?_)
  rw [← hlow]
  have : s.esp - 4 = s.esp - 4 + BitVec.ofNat 32 f.frame - BitVec.ofNat 32 f.frame := by
    rw [BitVec.add_sub_cancel]
  rw [this] at ha
  exact bytes_below (by omega) (by omega) ha

/-! ## jumps -/

theorem until_jmp (hD : env.Drives R P) {l : Label} {a : Word}
    (hseg : Seg env.jit.runtimeFetch env.jit.image.addr s.pc (emit (.jmp l)) e)
    (hl : env.jit.image.addr l = some a) (h : Until R P Q { s with pc := a }) : Until R P Q s := by
  obtain ⟨n, hf, -⟩ := hseg
  refine until_instr hD.driven hD.passes hf (not_call fun l => by simp) ?_ h
  show (env.jit.image.addr l).map _ = _
  rw [hl]
  rfl

theorem until_jcc (hD : env.Drives R P) {cond : Cond} {l : Label} {a : Word}
    (hseg : Seg env.jit.runtimeFetch env.jit.image.addr s.pc (emit (.jcc cond l)) e)
    (hl : env.jit.image.addr l = some a)
    (ht : cond.holds s.flags = true → Until R P Q { s with pc := a })
    (hn : cond.holds s.flags = false → Until R P Q { s with pc := e }) : Until R P Q s := by
  obtain ⟨n, hf, rfl⟩ := hseg
  cases hc : cond.holds s.flags with
  | true =>
    refine until_instr hD.driven hD.passes hf (not_call fun l => by simp) ?_ (ht hc)
    show (if cond.holds s.flags then _ else _) = _
    rw [if_pos hc, hl]
    rfl
  | false =>
    refine until_instr hD.driven hD.passes hf (not_call fun l => by simp) ?_ (hn hc)
    show (if cond.holds s.flags then _ else _) = _
    rw [hc]
    rfl

/-! ## pieces that call a C function -/

theorem until_debugPrint (hD : env.Drives R P) {message : String}
    (hseg : Seg env.jit.runtimeFetch env.jit.image.addr s.pc
      (asm (emitDebugPrint env.jit.compiler message)) e)
    (h : ∀ (fl : Flags) (m : Mem), fl.df = s.flags.df →
      Set.EqOn m s.mem (below s.esp (env.window + 32))ᶜ →
      Until R P Q { s with flags := fl, mem := m, pc := e }) : Until R P Q s := by
  unfold emitDebugPrint at hseg
  split at hseg
  · obtain ⟨a1, hs1, hseg⟩ := seg_code [_, _, _, _] hseg
    obtain ⟨a2, hs2, hs3⟩ := seg_code [_] hseg
    have h4 : s.esp - 4 - 4 = s.esp - 8 := sub_sub_lit _ (by decide)
    have h8 : s.esp - 8 - 4 = s.esp - 12 := sub_sub_lit _ (by decide)
    have h12 : s.esp - 12 - 4 = s.esp - 16 := sub_sub_lit _ (by decide)
    have hw := env.window_le
    have hrun : runSeq env.jit.image.addr [.push (eax : Opnd Cell), .push (edx : Opnd Cell),
        .push (ecx : Opnd Cell), .push (env.jit.compiler.message message : Opnd Cell)] s =
        some { s with
          esp := s.esp - 16, mem := pushes s.mem s.esp [s.eax, s.edx, s.ecx,
            env.jit.compiler.message message] } := by
      simp only [runSeq_cons, runSeq_nil, exec, State.load, State.get, State.push, Option.map_some,
        Option.bind_some, pushes, h4, h8, h12]
    refine until_run hD.driven hD.passes hs1 rfl hrun ?_
    refine until_callAbs hD .puts hs2 fun v x y fl m _ hfl hm => ?_
    have hlow : s.esp - 16 + BitVec.ofNat 32 (CFun.puts.frame - 4) = s.esp - 12 := by
      show s.esp - 16 + 4 = s.esp - 12
      bv_omega
    dsimp only at hm hfl ⊢
    rw [hlow] at hm
    -- the pushed registers come back
    have hk {i : Nat} (h4 : 4 ≤ i) (hi : i ≤ 12) : bytes (s.esp - BitVec.ofNat 32 i) 4 ⊆
        (below (s.esp - BitVec.ofNat 32 12) (env.window + 8))ᶜ :=
      bytes_above h4 hi (by omega)
    have hc : m.read32 (s.esp - 12) = s.ecx :=
      (EqOn.read32 hm (hk (i := 12) (by omega) (by omega))).trans
        (read_pushes s.mem s.esp [s.eax, s.edx, s.ecx, _] (i := 2) (by simp) (by simp))
    have hd : m.read32 (s.esp - 8) = s.edx :=
      (EqOn.read32 hm (hk (i := 8) (by omega) (by omega))).trans
        (read_pushes s.mem s.esp [s.eax, s.edx, s.ecx, _] (i := 1) (by simp) (by simp))
    have ha : m.read32 (s.esp - 4) = s.eax :=
      (EqOn.read32 hm (hk (i := 4) (by omega) (by omega))).trans
        (read_pushes s.mem s.esp [s.eax, s.edx, s.ecx, _] (i := 0) (by simp) (by simp))
    have hpop (pc : Word) : runSeq env.jit.image.addr [.add (esp : Opnd Cell) (4 : Word),
        .pop (ecx : Opnd Cell), .pop (edx : Opnd Cell), .pop (eax : Opnd Cell)]
        { s with eax := v, ecx := x, edx := y, esp := s.esp - 16, flags := fl, mem := m, pc := pc } =
        some { s with flags := fl.add (s.esp - 16) 4, mem := m, pc := pc } := by
      have e1 : s.esp - 16 + 4 = s.esp - 12 := by bv_omega
      have e2 : s.esp - 12 + 4 = s.esp - 8 := by bv_omega
      have e3 : s.esp - 8 + 4 = s.esp - 4 := by bv_omega
      have e4 : s.esp - 4 + 4 = s.esp := BitVec.sub_add_cancel _ _
      simp only [runSeq_cons, runSeq_nil, exec, State.alu, State.load, State.store, State.get,
        State.set, State.top, Option.map_some, Option.bind_some, e1, e2, e3, e4, hc, hd, ha]
    refine until_run hD.driven hD.passes hs3 rfl (hpop _) (h _ m hfl ?_)
    refine (hm.mono (Set.compl_subset_compl.mpr ?_)).trans ((pushes_eqOn _ _ _ (by simp)).mono
      (Set.compl_subset_compl.mpr (below_mono ?_)))
    · exact below_below (i := 12) (by show env.window + 8 + 12 ≤ _; omega) (by omega)
    · show 16 ≤ _
      omega
  · obtain rfl : s.pc = e := hseg
    exact h s.flags s.mem rfl fun _ _ => rfl

/-- the address of the runtime information block -/
theorem ribStart_addr : ∃ a, env.jit.image.addr .ribStart = some a := by
  have hin : emitRuntimeInfo <:+: env.jit.runtime :=
    env.jit.infix_runtime (by simp [Jit.parts]) (List.infix_refl _)
  obtain ⟨a, e, h⟩ := env.jit.part hin
  exact ⟨a, h.1⟩

/-- `JumpLookup` and `ReverseJumpLookup`, from their first instruction -/
theorem until_lookup (hD : env.Drives R P) (f : CFun) (hframe : f.frame = 12)
    (hseg : Seg env.jit.runtimeFetch env.jit.image.addr s.pc (asm lookupArgs ++
      emit (.callAbs (env.jit.compiler.address f)) ++ asm lookupLeave ++ emit .ret) e)
    (h : ∀ (v y : Word) (fl : Flags) (m : Mem), env.jit.Value s.eax y v f →
      fl.df = s.flags.df → Set.EqOn m s.mem (below s.esp (env.window + 32))ᶜ →
      Until R P Q { s with
        eax := v, flags := fl, mem := m, esp := s.esp + 4, pc := s.top }) : Until R P Q s := by
  obtain ⟨a3, hseg, hs4⟩ := seg_append.mp hseg
  obtain ⟨a2, hseg, hs3⟩ := seg_append.mp hseg
  obtain ⟨a1, hs1, hs2⟩ := seg_append.mp hseg
  obtain ⟨rib, hrib⟩ := @ribStart_addr env
  obtain ⟨n, hret, -⟩ := hs4
  have h4 : s.esp - 4 - 4 = s.esp - 8 := sub_sub_lit _ (by decide)
  have h8 : s.esp - 8 - 4 = s.esp - 12 := sub_sub_lit _ (by decide)
  have h12 : s.esp - 12 - 4 = s.esp - 16 := sub_sub_lit _ (by decide)
  have hw := env.window_le
  have hrun : runSeq env.jit.image.addr lookupArgs s = some { s with
      ecx := rib, esp := s.esp - 16, mem := pushes s.mem s.esp [s.ecx, s.edx, rib, s.eax] } := by
    simp only [lookupArgs, runSeq_cons, runSeq_nil, exec, State.load, State.get, State.set,
      State.push, hrib, Option.map_some, Option.bind_some, pushes, h4, h8, h12]
  refine until_run hD.driven hD.passes hs1 rfl hrun ?_
  refine until_callAbs hD f hs2 fun v x y fl m hv hfl hm => ?_
  have hlow : s.esp - 16 + BitVec.ofNat 32 (f.frame - 4) = s.esp - 8 := by
    rw [hframe]
    show s.esp - 16 + 8 = s.esp - 8
    bv_omega
  dsimp only at hm hfl hv ⊢
  rw [hlow, hframe] at hm
  have hk {i : Nat} (h4 : 4 ≤ i) (hi : i ≤ 8) : bytes (s.esp - BitVec.ofNat 32 i) 4 ⊆
      (below (s.esp - BitVec.ofNat 32 8) (env.window + 12))ᶜ :=
    bytes_above h4 hi (by omega)
  have hd : m.read32 (s.esp - 8) = s.edx :=
    (EqOn.read32 hm (hk (i := 8) (by omega) (by omega))).trans
      (read_pushes s.mem s.esp [s.ecx, s.edx, _, _] (i := 1) (by simp) (by simp))
  have hc : m.read32 (s.esp - 4) = s.ecx :=
    (EqOn.read32 hm (hk (i := 4) (by omega) (by omega))).trans
      (read_pushes s.mem s.esp [s.ecx, s.edx, _, _] (i := 0) (by simp) (by simp))
  have hx : (pushes s.mem s.esp [s.ecx, s.edx, rib, s.eax]).read32 (s.esp - 16) = s.eax :=
    read_pushes s.mem s.esp [s.ecx, s.edx, rib, s.eax] (i := 3) (by simp) (by simp)
  have hpop (pc : Word) : runSeq env.jit.image.addr lookupLeave
      { s with eax := v, ecx := x, edx := y, esp := s.esp - 16, flags := fl, mem := m, pc := pc } =
      some { s with eax := v, flags := fl.add (s.esp - 16) 8, mem := m, pc := pc } := by
    have e1 : s.esp - 16 + 8 = s.esp - 8 := by bv_omega
    have e2 : s.esp - 8 + 4 = s.esp - 4 := by bv_omega
    have e3 : s.esp - 4 + 4 = s.esp := BitVec.sub_add_cancel _ _
    simp only [lookupLeave, runSeq_cons, runSeq_nil, exec, State.alu, State.load, State.store,
      State.get, State.set, State.top, Option.map_some, Option.bind_some, e1, e2, e3, hc, hd]
  have hmem : Set.EqOn m s.mem (below s.esp (env.window + 32))ᶜ := by
    refine (hm.mono (Set.compl_subset_compl.mpr ?_)).trans ((pushes_eqOn _ _ _ (by simp)).mono
      (Set.compl_subset_compl.mpr (below_mono ?_)))
    · exact below_below (i := 8) (by omega) (by omega)
    · show 16 ≤ _
      omega
  have htop : m.read32 s.esp = s.mem.read32 s.esp :=
    EqOn.read32 hmem (Set.subset_compl_iff_disjoint_left.mpr (below_disjoint (by omega)))
  refine until_run hD.driven hD.passes hs3 rfl (hpop _) ?_
  refine until_instr hD.driven hD.passes hret (not_call fun l => by simp) rfl ?_
  rw [hx] at hv
  have h' := h v _ (fl.add (s.esp - 16) 8) m hv hfl hmem
  unfold State.top at h' ⊢
  rw [← htop] at h'
  exact h'

theorem until_callLookup (hD : env.Drives R P) {f : CFun} (hframe : f.frame = 12) {l : Label}
    (hl : l ≠ .haltHelper)
    (hin : emitLookup l (env.jit.compiler.address f) <:+: env.jit.runtime)
    (hseg : Seg env.jit.runtimeFetch env.jit.image.addr s.pc (emit (.call l)) e)
    (h : ∀ (v y : Word) (fl : Flags) (m : Mem), env.jit.Value s.eax y v f →
      fl.df = s.flags.df → Set.EqOn m s.mem (below s.esp (env.window + 36))ᶜ →
      Until R P Q { s with eax := v, flags := fl, mem := m, pc := e }) : Until R P Q s := by
  obtain ⟨a, e', hcode⟩ := env.jit.part hin
  unfold emitLookup at hcode
  simp only [List.append_assoc] at hcode
  have ha : env.jit.image.addr l = some a := hcode.1
  have hbody : Seg env.jit.runtimeFetch env.jit.image.addr a (asm lookupArgs ++
      emit (.callAbs (env.jit.compiler.address f)) ++ asm lookupLeave ++ emit .ret) e' := by
    simp only [List.append_assoc]
    exact hcode.2
  obtain ⟨n, hf, rfl⟩ := hseg
  have hcall : step env.jit.image.addr (.call l : Instr Cell Label) n s =
      some { s.push n with pc := a } := by
    show (env.jit.image.addr l).map _ = _
    rw [ha]
    rfl
  refine until_instr hD.driven hD.passes hf ?_ hcall ?_
  · intro l' hi
    cases hi
    exact hl
  · refine until_lookup hD f hframe hbody fun v y fl m hv hfl hm => ?_
    have hw := env.window_le
    have hesp : s.esp - 4 + 4 = s.esp := BitVec.sub_add_cancel _ _
    have htop : (s.mem.write32 (s.esp - 4) n).read32 (s.esp - 4) = n := read32_write32_self _ _ _
    dsimp only [State.push, State.top] at hv hfl hm ⊢
    rw [hesp, htop]
    refine h v y fl m hv hfl ((hm.mono (Set.compl_subset_compl.mpr ?_)).trans (eqOn_write n ?_))
    · exact below_below (i := 4) (by omega) (by omega)
    · refine Set.disjoint_left.mpr fun x hx hc => hc ?_
      exact bytes_below (i := 4) (by omega) (by omega) hx

theorem until_jumpLookup (hD : env.Drives R P)
    (hseg : Seg env.jit.runtimeFetch env.jit.image.addr s.pc (emit (.call .jumpLookup)) e)
    (h : ∀ (fl : Flags) (m : Mem), fl.df = s.flags.df →
      Set.EqOn m s.mem (below s.esp (env.window + 36))ᶜ →
      Until R P Q { s with
        eax := getJITInstrPtr env.jit.instrTable s.eax, flags := fl, mem := m, pc := e }) :
    Until R P Q s := by
  refine until_callLookup hD (f := .getJITInstrPtr) rfl (by simp)
    (env.jit.infix_runtime (by simp [Jit.parts]) (List.infix_refl (emitJumpLookup _))) hseg ?_
  rintro v y fl m rfl hfl hm
  exact h fl m hfl hm

theorem until_reverseJumpLookup (hD : env.Drives R P)
    (hseg : Seg env.jit.runtimeFetch env.jit.image.addr s.pc (emit (.call .reverseJumpLookup)) e)
    (h : ∀ (fl : Flags) (m : Mem), fl.df = s.flags.df →
      Set.EqOn m s.mem (below s.esp (env.window + 36))ᶜ →
      Until R P Q { s with
        eax := getANXAddressByJITInstrPtr env.jit.instrTable s.eax, flags := fl, mem := m,
        pc := e }) :
    Until R P Q s := by
  refine until_callLookup hD (f := .getANXAddressByJITInstrPtr) rfl (by simp)
    (env.jit.infix_runtime (by simp [Jit.parts]) (List.infix_refl (emitReverseJumpLookup _))) hseg ?_
  rintro v y fl m rfl hfl hm
  exact h fl m hfl hm

end Env

end AmxJit
