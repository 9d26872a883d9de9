import AmxJit.Runtime.Resume

/-!
# What must become of the script

The rules of `Indirect.lean` for the instructions at which the script may end:

* `must_bounds`    `BOUNDS`: on, or to `HaltHelper`;
* `must_back`      `RET` and `RETN` back to `ExecHelper`; `return_frm`: FRM after that;
* `must_request`   a native call, up to the first instruction of the host function.
-/

set_option linter.constructorNameAsVariable false

namespace AmxJit
open X86 Trans Reg

namespace Env
variable {env : Env} {X : Machine → Machine → Prop} {Q : Machine → Prop} {u s t c : Machine}
  {i : Instruction} {f : Callee}

/-! ## BOUNDS -/

theorem must_jcc {cond : Cond} {l : Label} {a b : Word} (hin : env.jit.InScript s.pc)
    (hseg : Seg env.jit.image.fetch env.jit.image.addr s.pc (emit (.jcc cond l)) b)
    (hl : env.jit.image.addr l = some a) (ha : env.jit.InScript a)
    (ht : cond.holds s.flags = true → Must (Step env X) Q { s with pc := a })
    (hn : cond.holds s.flags = false → Must (Step env X) Q { s with pc := b }) :
    Must (Step env X) Q s := by
  obtain ⟨n, hf, rfl⟩ := hseg
  cases hc : cond.holds s.flags with
  | true =>
    have hstep : step env.jit.image.addr (.jcc cond l : Instr Cell Label) n s =
        some { s with pc := a } := by
      show (if cond.holds s.flags then _ else _) = _
      rw [if_pos hc, hl]
      rfl
    exact must_script hin (step_on hin hf hstep (fun _ _ => rfl) ha) (ht hc)
  | false =>
    have hstep : step env.jit.image.addr (.jcc cond l : Instr Cell Label) n s =
        some { s with pc := n } := by
      show (if cond.holds s.flags then _ else _) = _
      rw [hc]
      rfl
    exact must_script hin (step_on hin hf hstep (fun _ _ => rfl) (env.jit.inScript_next hin hf))
      (hn hc)

/-- a jump that is taken in any case -/
theorem must_jmp {l : Label} {a b : Word} (hin : env.jit.InScript s.pc)
    (hseg : Seg env.jit.image.fetch env.jit.image.addr s.pc (emit (.jmp l)) b)
    (hl : env.jit.image.addr l = some a) (ha : env.jit.InScript a)
    (h : Must (Step env X) Q { s with pc := a }) : Must (Step env X) Q s := by
  obtain ⟨n, hf, rfl⟩ := hseg
  have hstep : step env.jit.image.addr (.jmp l : Instr Cell Label) n s =
      some { s with pc := a } := by
    show (env.jit.image.addr l).map _ = _
    rw [hl]
    rfl
  exact must_script hin (step_on hin hf hstep (fun _ _ => rfl) ha) h

/-- **`BOUNDS`**: on, if PRI is not negative and not above the bound; else to the call of
`HaltHelper` with `AMX_ERR_BOUNDS`. -/
theorem must_bounds (hi : i ∈ env.jit.instrs) (hop : i.opcode = .bounds)
    (hpc : env.jit.native i.address = some s.pc)
    (hok : 0 ≤ s.eax.toInt → s.eax.toInt ≤ i.operand.toInt → ∀ (fl : Flags) (e : Word),
      fl.df = s.flags.df → (∀ j ∈ env.jit.instrs, j.address = i.next → env.jit.At j e) →
      Must (Step env X) Q { s with flags := fl, pc := e })
    (hfail : i.operand.toInt < s.eax.toInt ∨ s.eax.toInt < 0 → ∀ (fl : Flags) (x n : Word),
      env.jit.InScript x → env.jit.image.fetch x = some (.call .haltHelper, n) →
      Must (Step env X) Q { s with edi := AMX_ERR_BOUNDS, flags := fl, pc := x }) :
    Must (Step env X) Q s := by
  have hin := env.jit.inScript_native hpc
  obtain ⟨x1, x2, x3, x4, x5, x6, x7, e, hnext, hhalt, hexit, hin2, hin5, hs1, hs2, hs3, hs4, hs5, hs6,
    hmov, hcall⟩ := bounds_code hi hop hpc
  have hin6 := inScript_asm hin5 hs6
  have hin8 := env.jit.inScript_next (inScript_asm hin6 hmov) hcall
  -- from `halt_label`
  have hgo (fl : Flags) (h : i.operand.toInt < s.eax.toInt ∨ s.eax.toInt < 0) :
      Must (Step env X) Q { s with flags := fl, pc := x5 } := by
    have hbreak : runSeq env.jit.image.addr (emitDebugBreakpoint env.jit.compiler)
        { s with flags := fl } = some { s with flags := fl } := by
      unfold emitDebugBreakpoint
      split <;> rfl
    have hquiet : env.jit.Inside env.amxMem (emitDebugBreakpoint env.jit.compiler)
        { s with flags := fl } := by
      unfold emitDebugBreakpoint
      split
      · rintro _ ⟨⟩
        exact ⟨fun _ _ => rfl, trivial⟩
      · trivial
    refine must_line hin5 hs6 hbreak hquiet fun _ => ?_
    have hedi : env.jit.Inside env.amxMem [.mov edi AMX_ERR_BOUNDS] { s with flags := fl } := by
      rintro _ ⟨⟩
      exact ⟨fun _ _ => rfl, trivial⟩
    exact must_line (s := { s with flags := fl })
      (t := { s with flags := fl, edi := AMX_ERR_BOUNDS }) hin6 hmov rfl hedi
      fun hin7 => hfail h fl x7 _ hin7 hcall
  have hcmp : env.jit.Inside env.amxMem [.cmp eax i.operand] s := by
    rintro _ ⟨⟩
    exact ⟨fun _ _ => rfl, trivial⟩
  refine must_line (s := s) hin hs1 rfl hcmp fun hin1 => ?_
  refine must_jcc hin1 hs2 hhalt hin5 (fun ht => hgo _ (.inl ?_)) fun hn => ?_
  · exact of_decide_eq_true ((cmp_g s.flags s.eax i.operand).symm.trans ht)
  have hle : ¬ i.operand.toInt < s.eax.toInt :=
    of_decide_eq_false ((cmp_g s.flags s.eax i.operand).symm.trans hn)
  set fl := s.flags.sub s.eax i.operand with hfl
  have htest : env.jit.Inside env.amxMem [.test eax eax] { s with flags := fl } := by
    rintro _ ⟨⟩
    exact ⟨fun _ _ => rfl, trivial⟩
  refine must_line (s := { s with flags := fl }) hin2 hs3 rfl htest fun hin3 => ?_
  refine must_jcc hin3 hs4 hhalt hin5 (fun ht => hgo _ (.inr ?_)) fun hn => ?_
  · exact of_decide_eq_true ((test_l fl s.eax).symm.trans ht)
  have hge : ¬ s.eax.toInt < 0 := of_decide_eq_false ((test_l fl s.eax).symm.trans hn)
  have hin4 := inScript_emit hin3 hs4
  refine must_jmp hin4 hs5 hexit hin8 ?_
  exact hok (Int.not_lt.mp hge) (Int.not_lt.mp hle) _ _ rfl hnext

/-! ## the return to `ExecHelper` -/

/-- The entry function has returned to `ExecHelper`. -/
structure Back (env : Env) (i : Instruction) (s t : Machine) : Prop where
  pc : env.jit.image.addr .callReturn = some t.pc
  eax : t.eax = s.eax
  esp : t.esp = if i.opcode = .retn then s.esp + 8 + s.mem.read32 (s.esp + 8) + 4 else s.esp + 8
  ebp : t.ebp = s.mem.read32 s.esp + s.ebx
  ebx : t.ebx = s.ebx
  vars : t.vars = { s.vars with amx := { s.vars.amx with stk := t.vars.amx.stk } }
  mem : Set.EqOn t.mem s.mem (bytes (t.esp - 4) 4)ᶜ

/-- **`RET` and `RETN`** of the entry function -/
theorem must_back (hi : i ∈ env.jit.instrs) (hop : i.opcode = .ret ∨ i.opcode = .retn)
    (hpc : env.jit.native i.address = some s.pc) (hamx : s.vars.rib.amx = s.vars.amxPtr)
    (hback : env.jit.image.addr .callReturn = some (s.mem.read32 (s.esp + 4)))
    (hcell : i.opcode = .retn → bytes (s.esp + 8 + s.mem.read32 (s.esp + 8)) 4 ⊆ env.amxMem) :
    Must (Step env X) (Back env i s) s := by
  rcases hop with hop | hop
  · refine must_retLine hi hop (Jit.at_native hpc) fun x n fl hinx hf => ?_
    refine must_script hinx (step_callReturn hinx hf hback) (.now ⟨hback, rfl, ?_, rfl, rfl, rfl, ?_⟩)
    · rw [if_neg (by rw [hop]; simp)]
      exact add_lit_lit s.esp 4 4
    · exact fun _ _ => rfl
  · refine must_retnLine hi hop (Jit.at_native hpc) hamx (hcell hop) fun x n fl hinx hf => ?_
    intro top
    have hread : (s.mem.write32 (top - 4) (s.mem.read32 (s.esp + 4))).read32 (top - 4) =
        s.mem.read32 (s.esp + 4) := read32_write32_self _ _ _
    have hback' : env.jit.image.addr .callReturn =
        some ((s.mem.write32 (top - 4) (s.mem.read32 (s.esp + 4))).read32 (top - 4)) := by
      rw [hread]
      exact hback
    have hesp : top - 4 + 4 = top := BitVec.sub_add_cancel _ _
    refine must_script hinx (step_callReturn hinx hf hback')
      (.now ⟨hback', rfl, ?_, rfl, rfl, rfl, ?_⟩)
    · rw [if_pos hop]
      exact hesp
    · show Set.EqOn (s.mem.write32 (top - 4) _) s.mem (bytes (top - 4 + 4 - 4) 4)ᶜ
      rw [hesp]
      exact eqOn_write _ (Set.disjoint_compl_right_iff_subset.mpr (Set.Subset.refl _))

theorem Back.inFrame (hu : env.Entry u) (hs : InFrame env u (env.mode u) s) (ht : Back env i s t)
    (hcell : bytes (t.esp - 4) 4 ⊆ env.amxMem) : InFrame env u (env.mode u) t := by
  have hv := ht.vars
  refine hs.amxWork hu (ht.mem.mono (Set.compl_subset_compl.mpr hcell)) (by rw [hv]) (by rw [hv])
    (by rw [hv]) (by rw [hv]) (by rw [hv]) ?_ ht.ebx
  rw [hv]
  rfl

/-- the frame of the function that `Exec` has started -/
structure Framed (env : Env) (u p : Machine) : Prop where
  esp : p.esp = startEsp u - 8
  frm : p.mem.read32 p.esp = u.vars.amx.frm
  ret : env.jit.image.addr .callReturn = some (p.mem.read32 (p.esp + 4))
  params : p.mem.read32 (p.esp + 8) = u.vars.amx.paramcount * 4

theorem Framed.balanced {p q : Machine} (h : Framed env u p) (hb : Balanced p q) :
    Framed env u q := by
  have h0 := hb.read (d := 0) (by decide)
  rw [show p.esp + BitVec.ofNat 32 0 = p.esp from add_zero _] at h0
  refine ⟨hb.esp.trans h.esp, ?_, ?_, ?_⟩
  · rw [hb.esp, h0]
    exact h.frm
  · rw [hb.esp, h.ret]
    exact congrArg some (hb.read (d := 4) (by decide)).symm
  · rw [hb.esp]
    exact (hb.read (d := 8) (by decide)).trans h.params

/-- `PROC` of that function -/
theorem must_framed {f : Instruction} {a : Word} (hu : Entry env u) (ht : Started env u a t)
    (hf : f ∈ env.jit.instrs) (hop : f.opcode = .proc) (hpc : env.jit.native f.address = some t.pc) :
    Must (Step env X) (Framed env u) t := by
  have hcode : compileInstr env.jit.compiler env.jit.amx f = some (asm emitProc) := by
    unfold compileInstr controlCode
    rw [hop]
    rfl
  obtain ⟨e, hseg, -⟩ := Jit.code_of hf hpc hcode
  have h4 : t.esp - 4 + 4 = t.esp := BitVec.sub_add_cancel _ _
  have hesp : t.esp - 4 = startEsp u - 8 := by
    rw [ht.esp]
    exact sub_sub_lit _ (by decide)
  have h8 : t.esp - 4 + 8 = startEsp u := by
    rw [hesp]
    exact BitVec.sub_add_cancel _ _
  have hcell : bytes (t.esp - 4) 4 ⊆ env.amxMem := by
    refine Set.Subset.trans ?_ hu.stack
    have hstk : startEsp u - 8 = dataBase u.vars + u.vars.amx.stk - 12 := by
      unfold startEsp
      rw [add_comm, ← add_sub_assoc]
      exact sub_sub_lit _ (by decide)
    rw [hesp, hstk]
    refine bytes_below (i := 12) (by decide) ?_
    unfold need
    omega
  refine must_line (s := t) (env.jit.inScript_native hpc) hseg (proc_run env.jit.image.addr t)
    (inside_proc hcell) fun _ => .now ⟨hesp, ?_, ?_, ?_⟩
  · show (t.mem.write32 (t.esp - 4) (t.ebp - t.ebx)).read32 (t.esp - 4) = _
    rw [read32_write32_self, ht.ebp, ht.inFrame.ebx, BitVec.add_sub_cancel]
  · show _ = some ((t.mem.write32 (t.esp - 4) (t.ebp - t.ebx)).read32 (t.esp - 4 + 4))
    rw [h4, read32_write32_sep _ _ _ _ (by rw [sub_eq_add_neg, sep_add_self]; decide)]
    exact ht.ret
  · show (t.mem.write32 (t.esp - 4) (t.ebp - t.ebx)).read32 (t.esp - 4 + 8) = _
    rw [read32_write32_sep _ _ _ _ (by rw [sep_self_add]; decide), h8]
    exact ht.params

/-- **FRM after a call**, without sleep: a function that is entered by `PROC` and left by `RET` or `RETN`
with the frame as `PROC` has made it gives `amx->frm` back. -/
theorem return_frm (env : Env) (C : Machine → Prop) (n : Nat) (u t : Machine) (f : Instruction)
    (a : Word) (hsleep : env.jit.compiler.enableSleep = false) (hu : Entry env u)
    (hr : Relation.ReflTransGen (level env C n) u t) (ht : Started env u a t)
    (hf : f ∈ env.jit.instrs) (hop : f.opcode = .proc) (hpc : env.jit.native f.address = some t.pc)
    (hargs : bytes (startEsp u + u.vars.amx.paramcount * 4) 4 ⊆ env.amxMem) :
    Must (level env C n) (fun p => ∀ q, Relation.ReflTransGen (level env C n) p q → Balanced p q →
      ∀ g ∈ env.jit.instrs, g.opcode = .ret ∨ g.opcode = .retn →
        env.jit.native g.address = some q.pc →
        Must (level env C n) (fun v => v.pc = u.top ∧ v.vars.amx.frm = u.vars.amx.frm) q) t := by
  obtain ⟨X, hX, hreturns⟩ := @level_calls env C n
  rw [hX] at hr ⊢
  refine (must_framed hu ht hf hop hpc).reached.imp ?_
  rintro p ⟨hp, hrp⟩ q hrq hbal g hg hgop hgpc
  have hq := hp.balanced hbal
  have hframe := spot_script hreturns hu ((hr.trans hrp).trans hrq) (env.jit.inScript_native hgpc)
  have h8 : q.esp + 8 = startEsp u := by
    rw [hq.esp]
    exact BitVec.sub_add_cancel _ _
  have hargs' : bytes (q.esp + 8 + q.mem.read32 (q.esp + 8)) 4 ⊆ env.amxMem := by
    rw [hq.params, h8]
    exact hargs
  refine (must_back (X := X) hg hgop hgpc hframe.amx hq.ret fun _ => hargs').bind fun s hs => ?_
  have hcell : bytes (s.esp - 4) 4 ⊆ env.amxMem := by
    rw [hs.esp]
    split
    · rw [BitVec.add_sub_cancel]
      exact hargs'
    · rw [h8]
      refine Set.Subset.trans ?_ (start_amxMem hu)
      exact fun x hx => Nat.lt_of_lt_of_le hx (by decide)
  refine (return_left (X := X) hu (hs.inFrame hu hframe hcell) hs.pc).must.imp fun v hv => ?_
  refine ⟨hv.pc, ?_⟩
  rw [hv.amx]
  show (returnAmx env.jit.compiler s).frm = _
  unfold returnAmx
  rw [if_neg (by rw [hsleep]; simp)]
  show s.ebp - s.ebx = _
  rw [hs.ebp, hs.ebx, BitVec.add_sub_cancel, hq.frm]

/-! ## native calls -/

/-- **A native call** comes to the first instruction of the host function. -/
theorem must_request {o : Opnd Cell} {ret v : Word} (hu : env.Entry u)
    (hs : InFrame env u (env.mode u) s) (hin : env.jit.InScript s.pc)
    (hseg : Seg env.jit.image.fetch env.jit.image.addr s.pc (requestCode f o) ret)
    (hload : s.load o = some v) (hnative : f = .native → v ∈ env.natives)
    (hroom : env.AmxRoom s.esp) :
    Must (Step env X) (fun c => ∃ a, Entered env u (env.mode u) f (requested s v ret a) c) s := by
  obtain ⟨t, a, hin', -, h1, h2, hcalled⟩ :=
    request_entered (X := X) hu hs hin hseg hload hroom hnative
  exact must_script hin h1 (must_script hin' h2 (hcalled.must.imp fun c hc => ⟨a, hc⟩))

end Env

end AmxJit
