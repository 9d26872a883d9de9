import AmxJit.Compiler.DataCorrect
import AmxJit.Compiler.Jit
import AmxJit.X86.Region
import AmxJit.Amx.Control

/-!
# Simulation of the abstract machine by the compiled code

* `Jit.Step`       one step of the compiled code; `Jit.At i pc` says that `pc` is the native address
                   of `i` or lies in the padding in front of it;
* `Rel`            related configurations and machines: registers, program counter, memory outside
                   the stale cells and the live return-address cells, which hold native addresses;
* `Implements`     the emitted code of the data opcodes does what `sem` says
                   (`dataSem_implements`: it does for `dataStep`);
* `control_sim`, `data_sim`   one step;
* `run_sim`        whole runs.
-/

namespace AmxJit
open X86 Trans

/-! ## the compiled code -/

theorem seg_label {F : Word → Option (Instr Cell Label × Word)} {adr : Label → Option Word}
    {a b : Word} {l : Label} {is : Buffer} :
    Seg F adr a (label l ++ is) b ↔ adr l = some a ∧ Seg F adr a is b := Iff.rfl

/-- `Seg` of a list of instructions in two parts -/
theorem seg_code {F : Word → Option (Instr Cell Label × Word)} {adr : Label → Option Word}
    {a b : Word} (is : Code) {t : Code} (h : Seg F adr a (asm (is ++ t)) b) :
    ∃ c, Seg F adr a (asm is) c ∧ Seg F adr c (asm t) b := by
  unfold asm code at h
  rw [List.map_append] at h
  exact seg_append.mp h

namespace Jit
variable (jit : Jit)

def Step (s t : Machine) : Prop :=
  ∃ i n, jit.image.fetch s.pc = some (i, n) ∧ step jit.image.addr i n s = some t

theorem driven : Driven jit.image.fetch jit.image.addr jit.Step := by
  intro s i n hf t
  constructor
  · rintro ⟨i', n', hf', hs⟩
    rw [hf] at hf'
    cases hf'
    exact hs
  · exact fun hs => ⟨i, n, hf, hs⟩

def At (i : Instruction) (pc : Word) : Prop :=
  ∃ a, jit.native i.address = some a ∧
    (pc = a ∨ i.opcode = .proc ∧ jit.image.fetch pc = some (.nop, a))

variable {jit}

theorem at_of_seg {i : Instruction} {a s : Word}
    (h : Seg jit.image.fetch jit.image.addr a (instrLabel i) s) : jit.At i a := by
  obtain ⟨hl, hp⟩ := seg_instrLabel h
  exact ⟨s, hl, hp⟩

/-- the code of an instruction; behind it comes the next one -/
theorem code_seg {i : Instruction} (hi : i ∈ jit.instrs) :
    ∃ b a e, compileInstr jit.compiler jit.amx i = some b ∧ jit.native i.address = some a ∧
      Seg jit.image.fetch jit.image.addr a b e ∧
      ∀ j ∈ jit.instrs, j.address = i.next → jit.At j e := by
  obtain ⟨l1, l2, hl⟩ := List.append_of_mem hi
  have hlaid := jit.laid
  have hswept := jit.swept
  rw [hl] at hlaid hswept
  obtain ⟨pre, m, m', -, hlaid'⟩ := hlaid.tail
  obtain ⟨cur, hin, hd, hs⟩ := hswept.tail
  obtain ⟨b, m'', hb, hs1, hs2, -, hlaid''⟩ := hlaid'.seg
  refine ⟨b, _, _, hb, (seg_instrLabel hs1).1, hs2, fun j hj hji => ?_⟩
  cases l2 with
  | nil =>
    have h1 := (jit.swept.mem hj).1
    have h2 : inCode jit.amx i.next = false := hs
    rw [hji, h2] at h1
    exact absurd h1 (by simp)
  | cons j' l2 =>
    have hj' : j' ∈ jit.instrs := by rw [hl]; simp
    have ha : j'.address = i.next := decodeInstruction_address hs.2.1
    rw [jit.swept.address_inj hj hj' (hji.trans ha.symm)]
    obtain ⟨-, -, -, hs3, -⟩ := hlaid''.seg
    exact at_of_seg hs3

/-- the code of an instruction whose native address is known -/
theorem code_at {i : Instruction} {p : Word} (hi : i ∈ jit.instrs)
    (hpc : jit.native i.address = some p) :
    ∃ b e, compileInstr jit.compiler jit.amx i = some b ∧
      Seg jit.image.fetch jit.image.addr p b e ∧
      ∀ j ∈ jit.instrs, j.address = i.next → jit.At j e := by
  obtain ⟨b, a, e, hb, ha, hseg, hnext⟩ := code_seg hi
  rw [hpc] at ha
  cases ha
  exact ⟨b, e, hb, hseg, hnext⟩

/-- the code itself is known -/
theorem code_of {i : Instruction} {p : Word} {b : Buffer} (hi : i ∈ jit.instrs)
    (hpc : jit.native i.address = some p) (hb : compileInstr jit.compiler jit.amx i = some b) :
    ∃ e, Seg jit.image.fetch jit.image.addr p b e ∧
      ∀ j ∈ jit.instrs, j.address = i.next → jit.At j e := by
  obtain ⟨b', e, hb', hseg, hnext⟩ := code_at hi hpc
  rw [hb] at hb'
  cases hb'
  exact ⟨e, hseg, hnext⟩

theorem at_native {i : Instruction} {a : Word} (ha : jit.native i.address = some a) :
    jit.At i a := ⟨a, ha, .inl rfl⟩

/-! ### steps that stay inside -/

/-- a step of the compiled code between addresses with `T` that writes to `W` only -/
structure Within (jit : Jit) (T : Word → Prop) (W : Set Word) (s t : Machine) : Prop where
  step : jit.Step s t
  source : T s.pc
  target : T t.pc
  mem : Set.EqOn t.mem s.mem Wᶜ

/-- `T` holds of the addresses of instructions, and is kept by instructions that fall through. -/
structure Closed (jit : Jit) (T : Word → Prop) : Prop where
  at' : ∀ i pc, jit.At i pc → T pc
  next : ∀ a i n, T a → jit.image.fetch a = some (i, n) → T n

theorem closed_true : jit.Closed fun _ => True := ⟨fun _ _ _ => trivial, fun _ _ _ _ _ => trivial⟩

/-- a straight line that writes to `W` only -/
def Inside (jit : Jit) (W : Set Word) : Code → Machine → Prop
  | [], _ => True
  | i :: is, s => ∀ t, exec jit.image.addr i s = some t →
      Set.EqOn t.mem s.mem Wᶜ ∧ Inside jit W is t

section
variable {T : Word → Prop} {W : Set Word} {Q : Machine → Prop} {s t : Machine}

theorem must_of_within (h : Must (jit.Within T W) Q s) : Must jit.Step Q s := by
  apply h.lift
  intro a b hab c
  obtain ⟨i, n, hf, hstep⟩ := hab.step
  rw [jit.driven a i n hf, hstep, Option.some.injEq]
  exact eq_comm

theorem must_within {i : Instr Cell Label} {n : Word} (hs : T s.pc)
    (hf : jit.image.fetch s.pc = some (i, n)) (hstep : step jit.image.addr i n s = some t)
    (ht : T t.pc) (hm : Set.EqOn t.mem s.mem Wᶜ) (h : Must (jit.Within T W) Q t) :
    Must (jit.Within T W) Q s := by
  have hone (v : Machine) : jit.Step s v ↔ v = t := by
    rw [jit.driven s i n hf, hstep, Option.some.injEq]
    exact eq_comm
  refine Until.det trivial (fun v => ⟨fun hv => (hone v).mp hv.step, fun hv => ?_⟩) h
  rw [hv]
  exact ⟨(hone t).mpr rfl, hs, ht, hm⟩

/-- a straight line -/
theorem must_line (hT : jit.Closed T) {is : Code} {a b : Word} (ha : T a)
    (hseg : Seg jit.image.fetch jit.image.addr a (asm is) b)
    (hrun : runSeq jit.image.addr is s = some t) (hm : jit.Inside W is s)
    (h : T b → Must (jit.Within T W) Q { t with pc := b }) :
    Must (jit.Within T W) Q { s with pc := a } := by
  induction is generalizing a s with
  | nil =>
    cases hrun
    obtain rfl : a = b := hseg
    exact h ha
  | cons i is ih =>
    obtain ⟨c, hf, hseg⟩ := hseg
    rw [runSeq_cons] at hrun
    obtain ⟨u, hu, hrun⟩ := Option.bind_eq_some_iff.mp hrun
    obtain ⟨hmem, hm⟩ := hm u hu
    have hc := hT.next _ _ _ ha hf
    have hexec : exec jit.image.addr i { s with pc := a } = some { u with pc := a } := by
      rw [exec_pc, hu]
      rfl
    exact must_within ha hf (step_of_exec _ hexec c) hc hmem (ih (s := u) hc hseg hrun hm)

/-- an instruction that sets flags only -/
theorem must_flags (hT : jit.Closed T) {i : Instr Cell Label} {e : Word} {f : Flags} (hs : T s.pc)
    (hseg : Seg jit.image.fetch jit.image.addr s.pc (asm [i]) e)
    (hrun : runSeq jit.image.addr [i] s = some { s with flags := f })
    (h : T e → Must (jit.Within T W) Q { s with flags := f, pc := e }) :
    Must (jit.Within T W) Q s := by
  refine must_line (s := s) hT hs hseg hrun (fun t ht => ⟨?_, trivial⟩) h
  rw [runSeq_cons, ht] at hrun
  cases hrun
  exact fun _ _ => rfl

/-- through the padding -/
theorem must_enter (hT : jit.Closed T) {i : Instruction} {a : Word}
    (hat : jit.At i s.pc) (ha : jit.native i.address = some a)
    (h : T a → Must (jit.Within T W) Q { s with pc := a }) : Must (jit.Within T W) Q s := by
  have hs := hT.at' _ _ hat
  have hTa := hT.at' _ _ (at_native ha)
  obtain ⟨a', ha', hpc⟩ := hat
  rw [ha] at ha'
  cases ha'
  rcases hpc with rfl | ⟨-, hf⟩
  · exact h hTa
  · exact must_within hs hf rfl hTa (fun _ _ => rfl) (h hTa)

end

end Jit

/-! ## cells and the free gap -/

section
variable {a : AmxState} {p o : Word}

theorem mem_cellsOf {ks : List Word} (hp : p ∈ ks) (ho : o ∈ cellAt p) : o ∈ cellsOf ks :=
  ⟨p, hp, ho⟩

/-- the cell below STK is free -/
theorem cellAt_below (h : 16 * 4 ≤ (a.stk - a.hea).toNat) (ho : o ∈ cellAt (a.stk - 4)) :
    o ∈ a.gap := by
  have h1 : (o - (a.stk - 4)).toNat < 4 := ho
  show (o - a.hea).toNat < (a.stk - a.hea).toNat
  have h4 : (4 : Word).toNat = 4 := rfl
  simp only [BitVec.toNat_sub, h4] at *
  omega

theorem cell_congr {a a' : AmxState} (h : ∀ o ∈ cellAt p, a'.mem o = a.mem o) :
    a'.cell p = a.cell p :=
  read32_congr fun o ho => h o ho

end

/-! ## the relation -/

/-- what is related but for the program counter -/
structure Agrees (jit : Jit) (k : AmxConst) (d : Word) (stale : Set Word) (c : Config)
    (s : Machine) : Prop extends Regs d c.st s where
  mem : ∀ o, o ∉ cellsOf c.live ∪ stale → s.mem (d + o) = c.st.mem o
  live : ∀ p ∈ c.live, ∀ i ∈ jit.instrs, i.address = c.st.cell p →
    jit.At i (s.mem.read32 (d + p))
  amx : s.vars.rib.amx = s.vars.amxPtr
  const : amxConst s.vars = k
  df : s.flags.df = false

structure Rel (jit : Jit) (k : AmxConst) (d : Word) (stale : Set Word) (c : Config)
    (s : Machine) : Prop extends Agrees jit k d stale c s where
  pc : ∃ i ∈ jit.instrs, i.address = c.cip ∧ jit.At i s.pc

section
variable {jit : Jit} {k : AmxConst} {d : Word} {stale stale' : Set Word} {c c' : Config}
  {s : Machine} {i : Instruction} {T : Word → Prop} {W : Set Word}

/-- a cell that is neither stale nor a live return-address cell -/
theorem Agrees.cell (h : Agrees jit k d stale c s) {p : Word}
    (hp : ∀ o ∈ cellAt p, o ∉ cellsOf c.live ∪ stale) : s.mem.read32 (d + p) = c.st.cell p := by
  rw [← shift_read32]
  exact read32_congr fun o ho => h.mem o (hp o ho)

/-- the flags and the program counter do not matter -/
theorem Agrees.flags (h : Agrees jit k d stale c s) {f : Flags} (hf : f.df = false) (pc : Word) :
    Agrees jit k d stale c { s with flags := f, pc := pc } :=
  ⟨⟨h.eax, h.ecx, h.ebp, h.esp, h.ebx, h.hea⟩, h.mem, h.live, h.amx, h.const, hf⟩

/-- a jump -/
theorem Agrees.goto (h : Agrees jit k d stale c s)
    (hsub : cellsOf c.live ∪ stale ⊆ cellsOf c.live ∪ stale') {j : Instruction}
    (hj : j ∈ jit.instrs) {pc : Word} (hat : jit.At j pc) :
    Rel jit k d stale' { c with cip := j.address } { s with pc := pc } :=
  ⟨⟨⟨h.eax, h.ecx, h.ebp, h.esp, h.ebx, h.hea⟩, fun o ho => h.mem o fun hn => ho (hsub hn), h.live,
    h.amx, h.const, h.df⟩, j, hj, rfl, hat⟩

/-- through the padding to the code of the instruction -/
theorem Rel.enter (h : Rel jit k d stale c s) (hT : jit.Closed T) (hi : i ∈ jit.instrs)
    (ha : i.address = c.cip) {a : Word} (hn : jit.native i.address = some a) {Q : Machine → Prop}
    (hQ : Agrees jit k d stale c { s with pc := a } → T a →
      Must (jit.Within T W) Q { s with pc := a }) :
    Must (jit.Within T W) Q s := by
  obtain ⟨j, hj, hja, hat⟩ := h.pc
  obtain rfl := jit.swept.address_inj hi hj (ha.trans hja.symm)
  exact Jit.must_enter hT hat hn (hQ (h.toAgrees.flags h.df a))

/-- the last step to an instruction -/
theorem within_rel (hT : jit.Closed T) {i : Instr Cell Label} {n : Word} {t : Machine} (hs : T s.pc)
    (hf : jit.image.fetch s.pc = some (i, n)) (hstep : step jit.image.addr i n s = some t)
    (hm : Set.EqOn t.mem s.mem Wᶜ) (h : Rel jit k d stale' c' t) :
    Must (jit.Within T W) (Rel jit k d stale' c') s := by
  obtain ⟨j, -, -, hat⟩ := h.pc
  exact Jit.must_within hs hf hstep (hT.at' _ _ hat) hm (.now h)

/-! ## jumps -/

theorem addr_cip {j : Instruction} (hj : j ∈ jit.instrs) :
    ∃ a, jit.image.addr (.cip j.address) = some a ∧ jit.At j a := by
  obtain ⟨a, ha, -⟩ := jit.native_mem hj
  exact ⟨a, ha, Jit.at_native ha⟩

/-- at a jump to the label that is taken -/
def Jit.JumpsTo (jit : Jit) (l : Label) (s : Machine) : Prop :=
  ∃ n, jit.image.fetch s.pc = some (.jmp l, n) ∨
    ∃ cond, jit.image.fetch s.pc = some (.jcc cond l, n) ∧ cond.holds s.flags = true

theorem Jit.JumpsTo.step {l : Label} {a : Word} (hj : jit.JumpsTo l s)
    (ha : jit.image.addr l = some a) :
    ∃ i n, jit.image.fetch s.pc = some (i, n) ∧
      X86.step jit.image.addr i n s = some { s with pc := a } := by
  obtain ⟨n, hf | ⟨cond, hf, hc⟩⟩ := hj
  · refine ⟨_, n, hf, ?_⟩
    show (jit.image.addr l).map _ = _
    rw [ha]
    rfl
  · refine ⟨_, n, hf, ?_⟩
    show (if cond.holds s.flags then _ else _) = _
    rw [if_pos hc, ha]
    rfl

theorem must_jumpsTo {l : Label} {a : Word} {Q : Machine → Prop} (hj : jit.JumpsTo l s)
    (ha : jit.image.addr l = some a) (h : Must jit.Step Q { s with pc := a }) :
    Must jit.Step Q s := by
  obtain ⟨i, n, hf, hstep⟩ := hj.step ha
  exact must_instr jit.driven hf hstep h

theorem within_jumpsTo {l : Label} {a : Word} {Q : Machine → Prop} (hs : T s.pc)
    (hj : jit.JumpsTo l s) (ha : jit.image.addr l = some a) (hTa : T a)
    (h : Must (jit.Within T W) Q { s with pc := a }) : Must (jit.Within T W) Q s := by
  obtain ⟨i, n, hf, hstep⟩ := hj.step ha
  exact Jit.must_within hs hf hstep hTa (fun _ _ => rfl) h

theorem jumpsTo_jmp {l : Label} {e : Word}
    (hseg : Seg jit.image.fetch jit.image.addr s.pc (emit (.jmp l)) e) : jit.JumpsTo l s := by
  obtain ⟨n, hf, -⟩ := hseg
  exact ⟨n, .inl hf⟩

theorem within_branch (hT : jit.Closed T) {cond : Cond} {l : Label} {e : Word} {Q : Machine → Prop}
    (hs : T s.pc) (hseg : Seg jit.image.fetch jit.image.addr s.pc (emit (.jcc cond l)) e)
    (htaken : cond.holds s.flags = true → jit.JumpsTo l s → Must (jit.Within T W) Q s)
    (hnot : cond.holds s.flags = false → T e → Must (jit.Within T W) Q { s with pc := e }) :
    Must (jit.Within T W) Q s := by
  obtain ⟨n, hf, rfl⟩ := hseg
  have hn := hT.next _ _ _ hs hf
  cases hc : cond.holds s.flags with
  | true => exact htaken hc ⟨n, .inr ⟨cond, hf, hc⟩⟩
  | false =>
    refine Jit.must_within (t := { s with pc := n }) hs hf ?_ hn (fun _ _ => rfl) (hnot hc hn)
    show (if cond.holds s.flags then _ else _) = _
    rw [hc]
    rfl

/-- a test and a conditional jump -/
theorem jcc_sim (hT : jit.Closed T) (hs : T s.pc) (hrel : Agrees jit k d stale c s)
    (hsub : cellsOf c.live ∪ stale ⊆ cellsOf c.live ∪ stale') {test : Instr Cell Label} {f : Flags}
    (hrun : runSeq jit.image.addr [test] s = some { s with flags := f }) (hf : f.df = false)
    {cond : Cond} {dest e : Word}
    (hseg : Seg jit.image.fetch jit.image.addr s.pc (asm [test] ++ emit (.jcc cond (.cip dest))) e)
    (hnext : ∀ j ∈ jit.instrs, j.address = i.next → jit.At j e)
    (hdec : ∃ j ∈ jit.instrs, j.address = if cond.holds f then dest else i.next) :
    Must (jit.Within T W)
      (Rel jit k d stale' { c with cip := if cond.holds f then dest else i.next }) s := by
  obtain ⟨x, hs1, hs2⟩ := seg_append.mp hseg
  obtain ⟨j, hj, hja⟩ := hdec
  have hrel' := hrel.flags hf x
  refine Jit.must_flags hT hs hs1 hrun fun hx => ?_
  refine within_branch hT hx hs2 (fun hc hjump => ?_) fun hc _ => ?_
  · have hc' : cond.holds f = true := hc
    rw [if_pos hc'] at hja
    obtain ⟨a, ha, hat⟩ := addr_cip hj
    rw [if_pos hc', ← hja]
    rw [hja] at ha
    exact within_jumpsTo hx hjump ha (hT.at' _ _ hat) (.now (hrel'.goto hsub hj hat))
  · have hc' : ¬ cond.holds f = true := Bool.eq_false_iff.mp hc
    rw [if_neg hc'] at hja
    rw [if_neg hc', ← hja]
    exact .now (hrel'.goto hsub hj (hnext j hj hja))

/-- the jumps that compare PRI with ALT take the branch that the comparison says -/
theorem compare_eq (op : OpcodeID) (f : Flags) (pri alt : Word) :
    op.compare pri alt = op.jumpCond.map fun cond => cond.holds (f.sub pri alt) := by
  cases op <;>
    simp only [OpcodeID.compare, OpcodeID.jumpCond, Option.map_some, Option.map_none, cmp_e, cmp_ne,
      cmp_b, cmp_be, cmp_a, cmp_ae, cmp_l, cmp_le, cmp_g, cmp_ge]
  rw [← decide_not]

/-! ## SWITCH -/

/-- the comparisons with the case values, and the jump behind them -/
theorem cases_run (hT : jit.Closed T) {records : List CaseRecord} {default e target : Word}
    (hs : T s.pc) (hseg : Seg jit.image.fetch jit.image.addr s.pc
      (records.flatMap emitCase ++ emit (.jmp (.cip default))) e)
    (htarget : ((records.find? fun r => r.value == s.eax).map CaseRecord.address).getD default =
      target) :
    Must (jit.Within T W) (fun t => ∃ (f : Flags) (p : Word), t = { s with flags := f, pc := p } ∧
      f.df = s.flags.df ∧ T p ∧ jit.JumpsTo (.cip target) t) s := by
  induction records generalizing s with
  | nil =>
    have htarget' : default = target := htarget
    rw [htarget'] at hseg
    exact .now ⟨s.flags, s.pc, rfl, rfl, hs, jumpsTo_jmp hseg⟩
  | cons r records ih =>
    rw [List.flatMap_cons, List.append_assoc] at hseg
    obtain ⟨x, hs1, hs2⟩ := seg_append.mp hseg
    obtain ⟨y, hs3, hs4⟩ := seg_append.mp hs1
    have hc : Cond.e.holds (s.flags.sub s.eax r.value) = (r.value == s.eax) := by
      rw [cmp_e, Bool.beq_eq_decide_eq]
      exact decide_eq_decide.mpr eq_comm
    refine Jit.must_flags hT hs hs3 rfl fun hy => ?_
    refine within_branch hT hy hs4 (fun ht hj => ?_) fun ht hx => ?_
    · have h' : (r.value == s.eax) = true := hc.symm.trans ht
      simp only [List.find?_cons, h', Option.map_some, Option.getD_some] at htarget
      rw [htarget] at hj
      exact .now ⟨_, y, rfl, rfl, hy, hj⟩
    · have h' : (r.value == s.eax) = false := hc.symm.trans ht
      simp only [List.find?_cons, h'] at htarget
      exact ih (s := { s with flags := s.flags.sub s.eax r.value, pc := x }) hx hs2 htarget

/-- the best value is at least as good as all the others -/
theorem findBest_le {better : Word → Word → Bool} {f : Word → Int}
    (hbetter : ∀ x y, better x y = true ↔ f x < f y) {records : List CaseRecord}
    {b : Option Word} {v : Word} (h : CaseTable.findBest better b records = some v) :
    (∀ w ∈ b, f v ≤ f w) ∧ ∀ r ∈ records, f v ≤ f r.value := by
  induction records generalizing b with
  | nil =>
    have h' : b = some v := h
    rw [h']
    exact ⟨fun w hw => le_of_eq (congrArg f (Option.some.inj hw)), by simp⟩
  | cons r records ih =>
    cases b with
    | none =>
      obtain ⟨h1, h2⟩ := ih (b := some r.value) h
      refine ⟨by simp, fun x hx => ?_⟩
      rcases List.mem_cons.mp hx with rfl | hx
      · exact h1 _ rfl
      · exact h2 x hx
    | some w =>
      obtain ⟨h1, h2⟩ := ih (b := some (if better r.value w then r.value else w)) h
      have h1' := h1 _ rfl
      have hb := hbetter r.value w
      refine ⟨fun x hx => ?_, fun x hx => ?_⟩
      · cases hx
        split at h1' <;> grind
      · rcases List.mem_cons.mp hx with rfl | hx
        · split at h1' <;> grind
        · exact h2 x hx

/-- without a best value there are no records -/
theorem findBest_none {better : Word → Word → Bool} {b : Option Word} {records : List CaseRecord}
    (h : CaseTable.findBest better b records = none) : records = [] := by
  have hsome (w : Word) (rs : List CaseRecord) :
      CaseTable.findBest better (some w) rs ≠ none := by
    induction rs generalizing w with
    | nil => exact Option.some_ne_none w
    | cons r rs ih => exact ih _
  cases records with
  | nil => rfl
  | cons r rs =>
    cases b with
    | none => exact absurd h (hsome _ _)
    | some w => exact absurd h (hsome _ _)

/-- the code of `SWITCH`, up to the jump that is taken -/
theorem within_switch (hT : jit.Closed T) {records : List CaseRecord} {b : Buffer} {e target : Word}
    (hs : T s.pc) (hb : emitSwitch records = some b)
    (hseg : Seg jit.image.fetch jit.image.addr s.pc b e)
    (htarget : switchTarget records s.eax = some target) :
    Must (jit.Within T W) (fun t => ∃ (f : Flags) (p : Word), t = { s with flags := f, pc := p } ∧
      f.df = s.flags.df ∧ T p ∧ jit.JumpsTo (.cip target) t) s := by
  obtain ⟨default, hdef, rfl⟩ := Option.map_eq_some_iff.mp hb
  have htarget' : ((records.tail.find? fun r => r.value == s.eax).map
      CaseRecord.address).getD default = target := by
    unfold switchTarget at htarget
    unfold CaseTable.getDefaultAddress at hdef
    rw [← List.head?_eq_getElem?] at hdef
    cases hfind : records.tail.find? fun r => r.value == s.eax with
    | some r =>
      rw [hfind] at htarget
      exact Option.some.inj htarget
    | none =>
      rw [hfind] at htarget
      exact Option.some.inj (hdef.symm.trans htarget)
  unfold emitCases at hseg
  split at hseg
  · rename_i minValue maxValue hmin hmax
    have hmin' := (findBest_le (f := BitVec.toInt) (fun x y => by
      simp [BitVec.slt]) hmin).2
    have hmax' := (findBest_le (f := fun x => -x.toInt) (fun x y => by
      simp [BitVec.slt]) hmax).2
    -- outside the range of the case values no record matches
    have hout (h : s.eax.toInt < minValue.toInt ∨ maxValue.toInt < s.eax.toInt) :
        default = target := by
      have hnone : (records.tail.find? fun r => r.value == s.eax) = none := by
        refine List.find?_eq_none.mpr fun r hr he => ?_
        have h1 := hmin' r hr
        have h2 := hmax' r hr
        rw [beq_iff_eq.mp he] at h1 h2
        omega
      rw [hnone] at htarget'
      exact htarget'
    simp only [List.append_assoc] at hseg
    obtain ⟨x1, hs1, hseg⟩ := seg_append.mp hseg
    obtain ⟨x2, hs2, hseg⟩ := seg_append.mp hseg
    obtain ⟨x3, hs3, hseg⟩ := seg_append.mp hseg
    obtain ⟨x4, hs4, hseg⟩ := seg_append.mp hseg
    refine Jit.must_flags hT hs hs1 rfl fun hx1 => ?_
    refine within_branch hT hx1 hs2 (fun ht hj => ?_) fun _ hx2 => ?_
    · have h' : s.eax.toInt < minValue.toInt :=
        of_decide_eq_true ((cmp_l s.flags _ _).symm.trans ht)
      rw [hout (.inl h')] at hj
      exact .now ⟨_, x1, rfl, rfl, hx1, hj⟩
    · refine Jit.must_flags hT hx2 hs3 rfl fun hx3 => ?_
      refine within_branch hT hx3 hs4 (fun ht hj => ?_) fun _ hx4 => ?_
      · have h' : maxValue.toInt < s.eax.toInt :=
          of_decide_eq_true ((cmp_g (s.flags.sub s.eax minValue) _ _).symm.trans ht)
        rw [hout (.inr h')] at hj
        exact .now ⟨_, x3, rfl, rfl, hx3, hj⟩
      · exact cases_run (s := { s with
          flags := (s.flags.sub s.eax minValue).sub s.eax maxValue, pc := x4 }) hT hx4 hseg htarget'
  · rename_i hnone
    have hempty : records.tail = [] := by
      cases hmin : CaseTable.findMinValue records with
      | none => exact findBest_none hmin
      | some v =>
        cases hmax : CaseTable.findMaxValue records with
        | none => exact findBest_none hmax
        | some w => exact (hnone v w hmin hmax).elim
    rw [hempty] at htarget'
    have hseg' : Seg jit.image.fetch jit.image.addr s.pc
        (([] : List CaseRecord).flatMap emitCase ++ emit (.jmp (.cip default))) e := hseg
    exact cases_run hT hs hseg' htarget'

theorem emitSwitch_run {records : List CaseRecord} {b : Buffer} {e target : Word}
    (hb : emitSwitch records = some b) (hseg : Seg jit.image.fetch jit.image.addr s.pc b e)
    (htarget : switchTarget records s.eax = some target) {Q : Machine → Prop}
    (h : ∀ (f : Flags) (p : Word), f.df = s.flags.df →
      jit.JumpsTo (.cip target) { s with flags := f, pc := p } →
      Must jit.Step Q { s with flags := f, pc := p }) :
    Must jit.Step Q s := by
  have hrun := within_switch (W := Set.univ) jit.closed_true trivial hb hseg htarget
  refine (Jit.must_of_within hrun).bind fun t ht => ?_
  obtain ⟨f, p, rfl, hf, -, hj⟩ := ht
  exact h f p hf hj

theorem switch_sim (hT : jit.Closed T) (hs : T s.pc) {records : List CaseRecord} {b : Buffer}
    {e target : Word} (hrel : Agrees jit k d stale c s)
    (hsub : cellsOf c.live ∪ stale ⊆ cellsOf c.live ∪ stale') (hb : emitSwitch records = some b)
    (hseg : Seg jit.image.fetch jit.image.addr s.pc b e)
    (htarget : switchTarget records c.st.pri = some target)
    (hdec : ∃ j ∈ jit.instrs, j.address = target) :
    Must (jit.Within T W) (Rel jit k d stale' { c with cip := target }) s := by
  obtain ⟨j, hj, rfl⟩ := hdec
  obtain ⟨a, ha, hat⟩ := addr_cip hj
  rw [← hrel.eax] at htarget
  refine (within_switch hT hs hb hseg htarget).bind fun t ht => ?_
  obtain ⟨f, p, rfl, hf, hp, hjump⟩ := ht
  refine within_jumpsTo hp hjump ha (hT.at' _ _ hat) (.now ?_)
  exact (hrel.flags (hf.trans hrel.df) a).goto hsub hj hat

/-! ## PROC, CALL, RET, RETN -/

theorem write_write (m : Mem) (a v w : Word) : (m.write32 a v).write32 a w = m.write32 a w := by
  funext x
  simp only [Mem.write]
  split <;> rfl

/-- a cell written with the same value on both sides -/
theorem Agrees.write (h : Agrees jit k d stale c s) {p v : Word} {o : Word}
    (ho : o ∉ cellAt p → o ∉ cellsOf c.live ∪ stale) :
    s.mem.write32 (d + p) v (d + o) = c.st.mem.write32 p v o := by
  have hs := congrFun (shift_write s.mem d p 4 v) o
  show (s.mem.write32 (d + p) v).shift d o = _
  rw [hs]
  by_cases hp : o ∈ cellAt p
  · exact (if_pos hp).trans (if_pos hp).symm
  · have h1 := write_out (s.mem.shift d) p 4 v o (Nat.le_of_not_lt hp)
    have h2 := write_out c.st.mem p 4 v o (Nat.le_of_not_lt hp)
    exact h1.trans ((h.mem o (ho hp)).trans h2.symm)

/-- a live return-address cell after a write elsewhere -/
theorem Agrees.live_write (h : Agrees jit k d stale c s) {p q v w : Word} (hp : p ∈ c.live)
    (hq : Disjoint (cellAt q) (cellsOf c.live)) {j : Instruction} (hj : j ∈ jit.instrs)
    (ha : j.address = (c.st.setCell q v).cell p) :
    jit.At j ((s.mem.write32 (d + q) w).read32 (d + p)) := by
  have hout : ∀ o ∈ cellAt p, o ∉ cellAt q := fun o ho hoq =>
    Set.disjoint_left.mp hq hoq (mem_cellsOf hp ho)
  have h1 : (c.st.setCell q v).cell p = c.st.cell p :=
    cell_congr fun o ho => write_out _ _ _ _ _ (Nat.le_of_not_lt (hout o ho))
  have h2 : (s.mem.write32 (d + q) w).read32 (d + p) = s.mem.read32 (d + p) := by
    rw [← shift_read32, ← shift_read32, shift_write]
    exact read32_congr fun o ho => write_out _ _ _ _ _ (Nat.le_of_not_lt (hout o ho))
  rw [h2]
  exact h.live p hp j hj (ha.trans h1)

/-- the cell below STK is none of the live return-address cells -/
theorem below_live {instrs : List Instruction} (hv : Valid instrs c) :
    Disjoint (cellAt (c.st.stk - 4)) (cellsOf c.live) :=
  Set.disjoint_left.mpr fun _ ho hl =>
    Set.disjoint_left.mp hv.live hl (cellAt_below hv.gap ho)

/-- the cell below STK lies in the free gap -/
theorem below_inside {a : AmxState} (hW : ∀ o ∈ a.gap, d + o ∈ W)
    (hgap : 16 * 4 ≤ (a.stk - a.hea).toNat) : bytes (d + (a.stk - 4)) 4 ⊆ W := by
  intro x hx
  have hx' : (x - (d + (a.stk - 4))).toNat < 4 := hx
  have ho : x - d ∈ cellAt (a.stk - 4) := by
    show (x - d - (a.stk - 4)).toNat < 4
    rwa [sub_sub]
  have := hW _ (cellAt_below hgap ho)
  rwa [add_comm, BitVec.sub_add_cancel] at this

theorem proc_run (adr : Label → Option Word) (s : Machine) :
    runSeq adr emitProc s = some { s with
      esp := s.esp - 4, ebp := s.esp - 4, flags := s.flags.sub s.ebp s.ebx,
      mem := s.mem.write32 (s.esp - 4) (s.ebp - s.ebx) } := by
  have h0 (x : Word) : x + 0 = x := BitVec.add_zero x
  simp only [emitProc, runSeq_cons, runSeq_nil, exec, State.load, State.store, State.alu,
    State.get, State.set, State.push, State.ea, ptr, Option.bind_some, Option.map_some,
    h0, read32_write32_self, write_write]

theorem inside_proc (hcell : bytes (s.esp - 4) 4 ⊆ W) : jit.Inside W emitProc s := by
  have hwrite (m : Mem) (v : Word) : Set.EqOn (m.write32 (s.esp - 4) v) m Wᶜ :=
    eqOn_write v (Set.disjoint_compl_right_iff_subset.mpr hcell)
  rintro _ ⟨⟩
  refine ⟨hwrite _ _, ?_⟩
  rintro _ ⟨⟩
  refine ⟨fun _ _ => rfl, ?_⟩
  rintro _ ⟨⟩
  refine ⟨?_, trivial⟩
  show Set.EqOn (Mem.write32 _ (s.esp - 4 + 0) _) _ _
  rw [show s.esp - 4 + 0 = s.esp - 4 from add_zero _]
  exact hwrite _ _

theorem proc_sim (hT : jit.Closed T) (hs : T s.pc) (hW : ∀ o ∈ c.st.gap, d + o ∈ W)
    (hrel : Agrees jit k d stale c s) (hv : Valid jit.instrs c) {e : Word}
    (hseg : Seg jit.image.fetch jit.image.addr s.pc (asm emitProc) e)
    (hsub : cellsOf c.live ∪ stale ⊆ cellsOf c.live ∪ stale' ∪ cellsOf [c.st.stk - 4])
    (hnext : ∀ j ∈ jit.instrs, j.address = i.next → jit.At j e)
    (hdec : ∃ j ∈ jit.instrs, j.address = i.next) :
    Must (jit.Within T W) (Rel jit k d stale'
      { c with cip := i.next, st := { c.st.push c.st.frm with frm := c.st.stk - 4 } }) s := by
  obtain ⟨j, hj, hja⟩ := hdec
  have hrun := proc_run jit.image.addr s
  have hfrm : s.ebp - s.ebx = c.st.frm := by
    rw [hrel.ebp, hrel.ebx, add_sub_left]
  have hesp : s.esp - 4 = d + (c.st.stk - 4) := by
    rw [hrel.esp, sub_four]
  have hcell : bytes (s.esp - 4) 4 ⊆ W := by
    rw [hesp]
    exact below_inside hW hv.gap
  refine Jit.must_line (s := s) hT hs hseg hrun (inside_proc hcell) fun _ => .now ?_
  rw [hfrm, hesp]
  refine ⟨⟨⟨hrel.eax, hrel.ecx, rfl, rfl, hrel.ebx, hrel.hea⟩, fun o ho => ?_,
    fun p hp j' hj' ha => ?_, hrel.amx, hrel.const, hrel.df⟩, j, hj, hja, hnext j hj hja⟩
  · refine hrel.write fun hn hmem => ?_
    rcases hsub hmem with h | ⟨q, hq, h⟩
    · exact ho h
    · rw [List.mem_singleton.mp hq] at h
      exact hn h
  · exact hrel.live_write hp (below_live hv) hj' ha

theorem call_sim (hT : jit.Closed T) (hs : T s.pc) (hW : ∀ o ∈ c.st.gap, d + o ∈ W)
    (hrel : Agrees jit k d stale c s) (hv : Valid jit.instrs c) {e dest : Word}
    (hseg : Seg jit.image.fetch jit.image.addr s.pc (emit (.call (.cip dest))) e)
    (hsub : cellsOf c.live ∪ stale ⊆ cellsOf ((c.st.stk - 4) :: c.live) ∪ stale')
    (hnext : ∀ j ∈ jit.instrs, j.address = i.next → jit.At j e)
    (hdec : ∃ j ∈ jit.instrs, j.address = dest) :
    Must (jit.Within T W)
      (Rel jit k d stale' ⟨dest, c.st.push i.next, (c.st.stk - 4) :: c.live⟩) s := by
  obtain ⟨j, hj, rfl⟩ := hdec
  obtain ⟨a, ha, hat⟩ := addr_cip hj
  obtain ⟨n, hf, rfl⟩ := hseg
  have hstep : step jit.image.addr (.call (.cip j.address) : Instr Cell Label) n s =
      some { s.push n with pc := a } := by
    show (jit.image.addr _).map _ = _
    rw [ha]
    rfl
  have hesp : s.esp - 4 = d + (c.st.stk - 4) := by
    rw [hrel.esp, sub_four]
  have hmem : Set.EqOn (s.push n).mem s.mem Wᶜ := by
    apply eqOn_write
    apply Set.disjoint_compl_right_iff_subset.mpr
    rw [hesp]
    exact below_inside hW hv.gap
  refine within_rel hT hs hf hstep hmem ?_
  unfold State.push
  rw [hesp]
  refine ⟨⟨⟨hrel.eax, hrel.ecx, hrel.ebp, rfl, hrel.ebx, hrel.hea⟩, fun o ho => ?_,
    fun p hp j' hj' ha' => ?_, hrel.amx, hrel.const, hrel.df⟩, j, hj, rfl, hat⟩
  · have hout : o ∉ cellAt (c.st.stk - 4) := fun h =>
      ho (.inl (mem_cellsOf List.mem_cons_self h))
    have h1 : c.st.mem.write32 (c.st.stk - 4) i.next o = c.st.mem o :=
      write_out _ _ _ _ _ (Nat.le_of_not_lt hout)
    have h2 : (s.mem.write32 (d + (c.st.stk - 4)) n).shift d o = s.mem.shift d o := by
      rw [shift_write]
      exact write_out _ _ _ _ _ (Nat.le_of_not_lt hout)
    exact h2.trans ((hrel.mem o fun h => ho (hsub h)).trans h1.symm)
  · rcases List.mem_cons.mp hp with rfl | hp
    · have h1 : j'.address = i.next := ha'.trans (read32_write32_self _ _ _)
      show jit.At j' ((s.mem.write32 (d + (c.st.stk - 4)) n).read32 (d + (c.st.stk - 4)))
      rw [read32_write32_self]
      exact hnext j' hj' h1
    · exact hrel.live_write hp (below_live hv) hj' ha'

/-- what RET and RETN establish: only the cell below the new STK may have been written -/
theorem return_rel (hrel : Agrees jit k d stale c s) {drop : Word}
    (hret : returnTo c drop = some c') (hv : Valid jit.instrs c') (hgap : c'.st.gap ⊆ stale')
    (hsub : cellsOf c.live ∪ stale ⊆ cellsOf c'.live ∪ stale') {t : Machine}
    (hregs : Regs d c'.st t) (hpc : t.pc = s.mem.read32 (d + (c.st.stk + 4)))
    (hmem : ∀ o, o ∉ cellAt (c'.st.stk - 4) → t.mem (d + o) = s.mem (d + o))
    (hamx : t.vars.rib.amx = t.vars.amxPtr) (hconst : amxConst t.vars = k)
    (hdf : t.flags.df = false) : Rel jit k d stale' c' t := by
  unfold returnTo at hret
  dsimp only at hret
  split at hret
  · rename_i hlive
    cases hret
    obtain ⟨j, hj, hja⟩ := hv.decoded
    refine ⟨⟨hregs, fun o ho => ?_, fun p hp j' hj' ha => ?_, hamx, hconst, hdf⟩, j, hj, hja, ?_⟩
    · rw [hmem o fun h => ho (.inr (hgap (cellAt_below hv.gap h)))]
      exact hrel.mem o fun h => ho (hsub h)
    · have hp' : p ∈ c.live := (List.mem_filter.mp hp).1
      have hread : t.mem.read32 (d + p) = s.mem.read32 (d + p) := by
        rw [← shift_read32, ← shift_read32]
        exact read32_congr fun o ho => hmem o fun h =>
          Set.disjoint_left.mp hv.live (mem_cellsOf hp ho) (cellAt_below hv.gap h)
      rw [hread]
      exact hrel.live p hp' j' hj' ha
    · rw [hpc]
      exact hrel.live _ hlive j hj hja
  · exact absurd hret (by simp)

/-- a cell that RET or RETN reads holds the AMX value -/
theorem Agrees.read (h : Agrees jit k d stale c s) {ks : List Word}
    (hlive : Disjoint (cellsOf ks) (cellsOf c.live)) (hstale : Disjoint (cellsOf ks) stale)
    {p : Word} (hp : p ∈ ks) : s.mem.read32 (d + p) = c.st.cell p :=
  h.cell fun _ ho hm => hm.elim (Set.disjoint_left.mp hlive (mem_cellsOf hp ho))
    (Set.disjoint_left.mp hstale (mem_cellsOf hp ho))

/-- the straight line of RET writes no memory -/
theorem inside_ret :
    jit.Inside W [.pop (Reg.ebp : Opnd Cell), .add (Reg.ebp : Opnd Cell) (Reg.ebx : Opnd Cell)] s := by
  rintro _ ⟨⟩
  refine ⟨fun _ _ => rfl, ?_⟩
  rintro _ ⟨⟩
  exact ⟨fun _ _ => rfl, trivial⟩

theorem ret_sim (hT : jit.Closed T) (hs : T s.pc) (hrel : Agrees jit k d stale c s) {e : Word}
    (hseg : Seg jit.image.fetch jit.image.addr s.pc emitRet e)
    (hlive : Disjoint (cellsOf [c.st.stk]) (cellsOf c.live))
    (hstale : Disjoint (cellsOf [c.st.stk]) stale)
    (hret : returnTo c 0 = some c') (hv : Valid jit.instrs c') (hgap : c'.st.gap ⊆ stale')
    (hsub : cellsOf c.live ∪ stale ⊆ cellsOf c'.live ∪ stale') :
    Must (jit.Within T W) (Rel jit k d stale' c') s := by
  obtain ⟨x, hs1, hs2⟩ := seg_append.mp hseg
  obtain ⟨n, hf, -⟩ := hs2
  have hfrm := hrel.read hlive hstale (p := c.st.stk) List.mem_cons_self
  refine Jit.must_line (s := s) hT hs hs1 rfl inside_ret fun hx => ?_
  refine within_rel hT hx hf rfl (fun _ _ => rfl) ?_
  refine return_rel hrel hret hv hgap hsub ?_ ?_ (fun _ _ => rfl) hrel.amx hrel.const hrel.df
  · unfold returnTo at hret
    dsimp only at hret
    split at hret
    · cases hret
      refine ⟨hrel.eax, hrel.ecx, ?_, ?_, hrel.ebx, hrel.hea⟩
      · show s.mem.read32 s.esp + s.ebx = d + c.st.cell c.st.stk
        rw [hrel.esp, hrel.ebx, hfrm, BitVec.add_comm]
      · show s.esp + 4 + 4 = d + (c.st.stk + 8 + 0)
        rw [hrel.esp]
        bv_omega
    · exact absurd hret (by simp)
  · show s.mem.read32 (s.esp + 4) = _
    rw [hrel.esp, BitVec.add_assoc]

theorem retn_run (adr : Label → Option Word) (s : Machine)
    (hamx : s.vars.rib.amx = s.vars.amxPtr) :
    let top := s.esp + 8 + s.mem.read32 (s.esp + 8) + 4
    ∃ f : Flags, runSeq adr retnCode s = some { s with
        ebp := s.mem.read32 s.esp + s.ebx, edx := s.mem.read32 (s.esp + 4), esi := s.vars.amxPtr,
        edi := top - s.ebx, esp := top - 4, flags := f,
        mem := s.mem.write32 (top - 4) (s.mem.read32 (s.esp + 4)),
        vars := { s.vars with amx := { s.vars.amx with stk := top - s.ebx } } } ∧
      f.df = s.flags.df := by
  intro top
  have h0 (x : Word) : x + 0 = x := BitVec.add_zero x
  have h44 (x : Word) : x + 4 + 4 = x + 8 := by bv_omega
  refine ⟨(((s.flags.add (s.mem.read32 s.esp) s.ebx).add (s.esp + 8)
    (s.mem.read32 (s.esp + 8))).add (s.esp + 8 + s.mem.read32 (s.esp + 8)) 4).sub top s.ebx, ?_, rfl⟩
  · simp only [retnCode, runSeq_cons, runSeq_nil, exec, State.load, State.store, State.alu,
      State.get, State.set, State.push, State.top, State.ea, ptr, Option.bind_some,
      Option.map_some, h0, h44, Cells.get, Cells.ptr, Cells.set, Vars.get, Vars.set, Vars.ptr,
      RuntimeInfoBlock.get, Amx.set, hamx, if_pos]
    rfl

/-- the straight line of RETN writes one cell, below the new STK -/
theorem inside_retn (hamx : s.vars.rib.amx = s.vars.amxPtr)
    (hcell : bytes (s.esp + 8 + s.mem.read32 (s.esp + 8)) 4 ⊆ W) : jit.Inside W retnCode s := by
  have h0 (x : Word) : x + 0 = x := BitVec.add_zero x
  have h44 (x : Word) : x + 4 + 4 = x + 8 := add_lit_lit x 4 4
  have h4 (x : Word) : x + 4 - 4 = x := BitVec.add_sub_cancel x 4
  simp only [Jit.Inside, retnCode, exec, State.load, State.store, State.alu, State.get, State.set,
    State.push, State.top, State.ea, ptr, Option.bind_some, Option.map_some, h0, h44, h4, Cells.get,
    Cells.ptr, Cells.set, Vars.get, Vars.set, Vars.ptr, RuntimeInfoBlock.get, Amx.set, hamx, if_pos,
    Option.some.injEq, forall_eq', Set.eqOn_refl, and_true, true_and]
  exact eqOn_write _ (Set.disjoint_compl_right_iff_subset.mpr hcell)

theorem retn_sim (hT : jit.Closed T) (hs : T s.pc) (hW : ∀ o ∈ c'.st.gap, d + o ∈ W)
    (hrel : Agrees jit k d stale c s) {e : Word}
    (hseg : Seg jit.image.fetch jit.image.addr s.pc emitRetn e)
    (hlive : Disjoint (cellsOf [c.st.stk, c.st.stk + 8]) (cellsOf c.live))
    (hstale : Disjoint (cellsOf [c.st.stk, c.st.stk + 8]) stale)
    (hret : returnTo c (c.st.cell (c.st.stk + 8) + 4) = some c') (hv : Valid jit.instrs c')
    (hgap : c'.st.gap ⊆ stale') (hsub : cellsOf c.live ∪ stale ⊆ cellsOf c'.live ∪ stale') :
    Must (jit.Within T W) (Rel jit k d stale' c') s := by
  obtain ⟨x, hs1, hs2⟩ := seg_append.mp hseg
  obtain ⟨n, hf, -⟩ := hs2
  have hfrm := hrel.read hlive hstale (p := c.st.stk) (by simp)
  have hcount := hrel.read hlive hstale (p := c.st.stk + 8) (by simp)
  obtain ⟨f, hrun, hfdf⟩ := retn_run jit.image.addr s hrel.amx
  have hstk : c'.st.stk = c.st.stk + 8 + (c.st.cell (c.st.stk + 8) + 4) ∧
      c'.st.frm = c.st.cell c.st.stk ∧ c'.st.pri = c.st.pri ∧ c'.st.alt = c.st.alt ∧
      c'.st.hea = c.st.hea := by
    unfold returnTo at hret
    dsimp only at hret
    split at hret
    · cases hret
      exact ⟨rfl, rfl, rfl, rfl, rfl⟩
    · exact absurd hret (by simp)
  obtain ⟨hstk, hfrm', hpri, halt, hhea⟩ := hstk
  have htop : s.esp + 8 + s.mem.read32 (s.esp + 8) + 4 = d + c'.st.stk := by
    rw [hstk, ← hcount, hrel.esp, BitVec.add_assoc d]
    bv_omega
  rw [htop] at hrun
  have hcell : bytes (s.esp + 8 + s.mem.read32 (s.esp + 8)) 4 ⊆ W := by
    have hnew : s.esp + 8 + s.mem.read32 (s.esp + 8) = d + (c'.st.stk - 4) := by
      rw [← sub_four, ← htop, BitVec.add_sub_cancel]
    rw [hnew]
    exact below_inside hW hv.gap
  refine Jit.must_line (s := s) hT hs hs1 hrun (inside_retn hrel.amx hcell) fun hx => ?_
  refine within_rel hT hx hf rfl (fun _ _ => rfl) ?_
  refine return_rel hrel hret hv hgap hsub ?_ ?_ (fun o ho => ?_) hrel.amx hrel.const
    (hfdf.trans hrel.df)
  · refine ⟨hrel.eax.trans hpri.symm, hrel.ecx.trans halt.symm, ?_, ?_, hrel.ebx,
      hrel.hea.trans hhea.symm⟩
    · show s.mem.read32 s.esp + s.ebx = d + c'.st.frm
      rw [hfrm', hrel.esp, hrel.ebx, hfrm, BitVec.add_comm]
    · show d + c'.st.stk - 4 + 4 = d + c'.st.stk
      rw [BitVec.sub_add_cancel]
  · show (s.mem.write32 (d + c'.st.stk - 4) (s.mem.read32 (s.esp + 4))).read32
      (d + c'.st.stk - 4) = _
    rw [read32_write32_self, hrel.esp, BitVec.add_assoc]
  · show s.mem.write32 (d + c'.st.stk - 4) _ (d + o) = s.mem (d + o)
    refine write_out _ _ _ _ _ ?_
    rw [sub_four, add_sub_add]
    exact Nat.le_of_not_lt ho

/-! ## one step -/

/-- A control opcode is simulated by steps between addresses with `T`, which write to the free gap
only. -/
theorem control_within {sem : Instruction → AmxState → Option AmxState} (hT : jit.Closed T)
    (hW : ∀ o ∈ c.st.gap ∪ c'.st.gap, d + o ∈ W) (hdebug : jit.compiler.debugFlags = 0)
    (hi : i ∈ jit.instrs) (ha : i.address = c.cip) (hstep : controlStep jit.amx i c = some c')
    (hlive : Disjoint (cellsOf (readCellsOf i c)) (cellsOf c.live))
    (hv : Valid jit.instrs c) (hv' : Valid jit.instrs c')
    (htr : Tracks jit.amx jit.instrs sem c stale c' stale') (hrel : Rel jit k d stale c s) :
    Must (jit.Within T W) (Rel jit k d stale' c') s := by
  obtain ⟨b, a, e, hb, hn, hseg, hnext⟩ := Jit.code_seg hi
  refine hrel.enter hT hi ha hn fun hrel' hTa => ?_
  have hW₀ (o : Word) (ho : o ∈ c.st.gap) : d + o ∈ W := hW o (.inl ho)
  have hW₁ (o : Word) (ho : o ∈ c'.st.gap) : d + o ∈ W := hW o (.inr ho)
  have hstale := htr.reads i hi ha hstep
  have hkeeps := htr.keeps i hi ha hstep
  have hdec := hv'.decoded
  have hb' : controlCode jit.compiler jit.amx i = some b := by
    unfold compileInstr at hb
    cases hd : dataCode i.opcode i.operand i.next with
    | none => rwa [hd] at hb
    | some is =>
      exfalso
      unfold controlStep at hstep
      cases hop : i.opcode <;> rw [hop] at hd hstep <;>
        first
        | exact absurd hd (Option.some_ne_none is).symm
        | exact absurd hstep (Option.some_ne_none c').symm
  unfold controlStep at hstep
  unfold controlCode at hb'
  dsimp only at hstep hb'
  rw [compare_eq i.opcode s.flags] at hstep
  unfold readCellsOf at hlive hstale
  unfold writtenCellsOf at hkeeps
  cases hj : i.opcode.jumpCond with
  | some cond =>
    rw [hj] at hstep hb'
    cases hstep
    cases hb'
    have hop : i.opcode ≠ .proc := by
      intro h
      rw [h] at hj
      exact absurd hj (Option.some_ne_none cond).symm
    rw [if_neg hop] at hkeeps
    have hsub : cellsOf c.live ∪ stale ⊆ cellsOf c.live ∪ stale' := fun o ho =>
      (hkeeps ho).elim id fun h => absurd h (by simp [cellsOf])
    have hf : (s.flags.sub c.st.pri c.st.alt).df = false := hrel.df
    have hrun : runSeq jit.image.addr [.cmp (Reg.eax : Opnd Cell) (Reg.ecx : Opnd Cell)]
        { s with pc := a } = some { s with pc := a, flags := s.flags.sub c.st.pri c.st.alt } := by
      rw [← hrel.eax, ← hrel.ecx]
      rfl
    exact jcc_sim hT hTa hrel' hsub hrun hf hseg hnext hdec
  | none =>
    rw [hj] at hstep hb'
    dsimp only [Option.map_none] at hstep hb'
    -- what an opcode leaves stale that writes nothing
    have hsub (h : i.opcode ≠ .proc) :
        cellsOf c.live ∪ stale ⊆ cellsOf c'.live ∪ stale' := fun o ho => by
      rw [if_neg h] at hkeeps
      exact (hkeeps ho).elim id fun h => absurd h (by simp [cellsOf])
    have hsub' (h : i.opcode ≠ .proc) (hl : c'.live = c.live) :
        cellsOf c.live ∪ stale ⊆ cellsOf c.live ∪ stale' := by
      have := hsub h
      rwa [hl] at this
    split at hstep
    case h_12 => exact absurd hstep (by simp)
    all_goals
      rename_i hop
      rw [hop] at hb' hlive hstale hkeeps hsub hsub'
    case h_1 =>
      cases hstep
      cases hb'
      exact proc_sim hT hTa hW₀ hrel' hv hseg hkeeps hnext hdec
    case h_2 =>
      cases hb'
      exact ret_sim hT hTa hrel' hseg hlive hstale hstep hv' htr.gap (hsub (by decide))
    case h_3 =>
      cases hb'
      exact retn_sim hT hTa hW₁ hrel' hseg hlive hstale hstep hv' htr.gap (hsub (by decide))
    case h_4 =>
      cases hstep
      cases hb'
      exact call_sim hT hTa hW₀ hrel' hv hseg (hsub (by decide)) hnext hdec
    case h_5 =>
      cases hstep
      cases hb'
      obtain ⟨j, hj, hja⟩ := hdec
      obtain ⟨t, ht, hat⟩ := addr_cip hj
      rw [hja] at ht
      have hrel'' := hrel'.goto (hsub' (by decide) rfl) hj hat
      rw [hja] at hrel''
      exact within_jumpsTo hTa (jumpsTo_jmp hseg) ht (hT.at' _ _ hat) (.now hrel'')
    case h_6 =>
      cases hstep
      cases hb'
      have he : Cond.e.holds (s.flags.logic (s.eax &&& s.eax)) = decide (c.st.pri = 0) := by
        rw [test_e, hrel.eax]
      have hif : (if c.st.pri = 0 then i.operand - jit.amx.code else i.next) =
          if Cond.e.holds (s.flags.logic (s.eax &&& s.eax)) then i.operand - jit.amx.code
            else i.next := by
        simp only [he, decide_eq_true_eq]
      rw [hif] at hdec ⊢
      exact jcc_sim hT hTa hrel' (hsub' (by decide) rfl) (f := s.flags.logic (s.eax &&& s.eax)) rfl hrel.df
        hseg hnext hdec
    case h_7 =>
      cases hstep
      cases hb'
      have he : Cond.ne.holds (s.flags.logic (s.eax &&& s.eax)) = !decide (c.st.pri = 0) := by
        rw [test_ne, hrel.eax]
      have hif : (if c.st.pri ≠ 0 then i.operand - jit.amx.code else i.next) =
          if Cond.ne.holds (s.flags.logic (s.eax &&& s.eax)) then i.operand - jit.amx.code
            else i.next := by
        simp only [he, Bool.not_eq_true', decide_eq_false_iff_not, ne_eq]
      rw [hif] at hdec ⊢
      exact jcc_sim hT hTa hrel' (hsub' (by decide) rfl) (f := s.flags.logic (s.eax &&& s.eax)) rfl hrel.df
        hseg hnext hdec
    case h_8 =>
      obtain ⟨records, hrec, hstep⟩ := Option.bind_eq_some_iff.mp hstep
      obtain ⟨target, htarget, rfl⟩ := Option.map_eq_some_iff.mp hstep
      have hb'' : emitSwitch records = some b := by
        rw [hrec] at hb'
        exact hb'
      exact switch_sim hT hTa hrel' (hsub' (by decide) rfl) hb'' hseg htarget hdec
    all_goals
      cases hstep
      have hempty : b = [] := by
        first
        | exact (Option.some.inj hb').symm
        | rw [← Option.some.inj hb', emitDebugBreakpoint, hdebug]
          rfl
      rw [hempty] at hseg
      obtain rfl : a = e := hseg
      obtain ⟨j, hj, hja⟩ := hdec
      have hrel'' := hrel'.goto (hsub' (by decide) rfl) hj (hnext j hj hja)
      rw [hja] at hrel''
      exact .now hrel''

/-- **A control opcode is simulated.** -/
theorem control_sim {sem : Instruction → AmxState → Option AmxState}
    (hdebug : jit.compiler.debugFlags = 0)
    (hi : i ∈ jit.instrs) (ha : i.address = c.cip) (hstep : controlStep jit.amx i c = some c')
    (hlive : Disjoint (cellsOf (readCellsOf i c)) (cellsOf c.live))
    (hv : Valid jit.instrs c) (hv' : Valid jit.instrs c')
    (htr : Tracks jit.amx jit.instrs sem c stale c' stale') (hrel : Rel jit k d stale c s) :
    Must jit.Step (Rel jit k d stale' c') s := by
  have hW : ∀ o ∈ c.st.gap ∪ c'.st.gap, d + o ∈ Set.univ := fun _ _ => trivial
  exact Jit.must_of_within
    (control_within jit.closed_true hW hdebug hi ha hstep hlive hv hv' htr hrel)

/-- The emitted code of an instruction does what `sem` says; it may use the free gap. -/
def Implements (jit : Jit) (k : AmxConst) (d : Word)
    (sem : Instruction → AmxState → Option AmxState) : Prop :=
  ∀ i ∈ jit.instrs, ∀ (w w' : AmxState) (s : Machine) (b : Buffer) (e : Word),
    sem i w = some w' → Repr d w s → amxConst s.vars = k → s.vars.rib.amx = s.vars.amxPtr →
    s.flags.df = false → 16 * 4 ≤ (w.stk - w.hea).toNat →
    compileInstr jit.compiler jit.amx i = some b →
    Seg jit.image.fetch jit.image.addr s.pc b e →
    Must jit.Step (fun t => t.pc = e ∧ Regs d w' t ∧ Kept s t ∧
      ∀ o, o ∉ w'.gap → t.mem (d + o) = w'.mem o) s

theorem AgreeOff.refl (E : Set Word) (a : AmxState) : AgreeOff E a a :=
  ⟨rfl, rfl, rfl, rfl, rfl, fun _ _ => rfl⟩

/-- What the code of a data opcode establishes, seen from the machine in front of it. -/
theorem data_rel {sem : Instruction → AmxState → Option AmxState} {a' : AmxState}
    (hi : i ∈ jit.instrs) (ha : i.address = c.cip) (hstep : sem i c.st = some a')
    (hlive : Untouched (sem i) c.st a' c.live (cellsOf c.live) (cellsOf c.live))
    (hv' : Valid jit.instrs ⟨i.next, a', c.live⟩)
    (htr : Tracks jit.amx jit.instrs sem c stale ⟨i.next, a', c.live⟩ stale')
    (hrel : Agrees jit k d stale c s) {e : Word}
    (hnext : ∀ j ∈ jit.instrs, j.address = i.next → jit.At j e) :
    ∃ w', sem i { c.st with mem := s.mem.shift d } = some w' ∧
      ∀ t : Machine, t.pc = e → Regs d w' t → Kept s t →
        (∀ o, o ∉ w'.gap → t.mem (d + o) = w'.mem o) → Rel jit k d stale' ⟨i.next, a', c.live⟩ t := by
  obtain ⟨j, hj, hja⟩ := hv'.decoded
  have hagree : AgreeOff (cellsOf c.live ∪ stale) c.st { c.st with mem := s.mem.shift d } :=
    ⟨rfl, rfl, rfl, rfl, rfl, fun o ho => hrel.mem o ho⟩
  obtain ⟨w', hw', hoff, hkept⟩ := htr.data i hi ha hstep _ hagree
  obtain ⟨a'', ha'', -, hkept'⟩ := hlive c.st (AgreeOff.refl _ _)
  rw [hstep] at ha''
  cases ha''
  have hgap : w'.gap = a'.gap := by
    unfold AmxState.gap
    rw [hoff.hea, hoff.stk]
  refine ⟨w', hw', ?_⟩
  rintro t rfl hregs hk hmem
  rw [hgap] at hmem
  refine ⟨⟨⟨?_, ?_, ?_, ?_, hregs.ebx, ?_⟩, fun o ho => ?_, fun p hp j' hj' hja' => ?_, ?_, ?_, ?_⟩,
    j, hj, hja, hnext j hj hja⟩
  · rw [hregs.eax, hoff.pri]
  · rw [hregs.ecx, hoff.alt]
  · rw [hregs.ebp, hoff.frm]
  · rw [hregs.esp, hoff.stk]
  · rw [hregs.hea, hoff.hea]
  · rw [hmem o fun h => ho (.inr (htr.gap h))]
    exact hoff.mem o ho
  · have hread : t.mem.read32 (d + p) = s.mem.read32 (d + p) := by
      rw [← shift_read32, ← shift_read32]
      refine read32_congr fun o ho => ?_
      have hlo : o ∈ cellsOf c.live := mem_cellsOf hp ho
      exact (hmem o (Set.disjoint_left.mp hv'.live hlo)).trans (hkept o hlo)
    have hcell : a'.cell p = c.st.cell p :=
      cell_congr fun o ho => hkept' o (mem_cellsOf hp ho)
    rw [hread]
    exact hrel.live p hp j' hj' (hja'.trans hcell)
  · rw [hk.vars]
    exact hrel.amx
  · have := hrel.const
    rw [hk.vars]
    exact this
  · exact hk.df.trans hrel.df

/-- **A data opcode is simulated.** -/
theorem data_sim {sem : Instruction → AmxState → Option AmxState} {a' : AmxState}
    (himpl : Implements jit k d sem) (hi : i ∈ jit.instrs) (ha : i.address = c.cip)
    (hstep : sem i c.st = some a')
    (hlive : Untouched (sem i) c.st a' c.live (cellsOf c.live) (cellsOf c.live))
    (hv : Valid jit.instrs c) (hv' : Valid jit.instrs ⟨i.next, a', c.live⟩)
    (htr : Tracks jit.amx jit.instrs sem c stale ⟨i.next, a', c.live⟩ stale')
    (hrel : Rel jit k d stale c s) :
    Must jit.Step (Rel jit k d stale' ⟨i.next, a', c.live⟩) s := by
  obtain ⟨b, a, e, hb, hn, hseg, hnext⟩ := Jit.code_seg hi
  have henter : Must jit.Step (fun t => t = { s with pc := a }) s :=
    Jit.must_of_within (W := Set.univ) (hrel.enter jit.closed_true hi ha hn fun _ _ => .now rfl)
  obtain ⟨w', hw', hafter⟩ :=
    data_rel hi ha hstep hlive hv' htr (hrel.toAgrees.flags hrel.df a) hnext
  -- the machine, seen as an AMX state
  have hrepr : Repr d { c.st with mem := s.mem.shift d } { s with pc := a } :=
    ⟨⟨hrel.eax, hrel.ecx, hrel.ebp, hrel.esp, hrel.ebx, hrel.hea⟩, rfl⟩
  refine henter.bind ?_
  rintro _ rfl
  refine (himpl i hi _ w' _ b e hw' hrepr hrel.const hrel.amx hrel.df hv.gap hb hseg).imp ?_
  rintro t ⟨hpc, hregs, hk, hmem⟩
  exact hafter t hpc hregs hk hmem

/-! ## whole runs -/

/-- **The compiled code simulates every run.**  `stale j` are the stale cells at the `j`-th
configuration. -/
theorem run_sim (jit : Jit) (k : AmxConst) (d : Word)
    (sem : Instruction → AmxState → Option AmxState) (hdebug : jit.compiler.debugFlags = 0)
    (himpl : Implements jit k d sem) (c : Nat → Config) (stale : Nat → Set Word) (n : Nat)
    (hstep : ∀ j < n, Step jit.amx jit.instrs sem (c j) (c (j + 1)))
    (hvalid : ∀ j ≤ n, Valid jit.instrs (c j))
    (htracks : ∀ j < n, Tracks jit.amx jit.instrs sem (c j) (stale j) (c (j + 1)) (stale (j + 1)))
    (s : Machine) (hrel : Rel jit k d (stale 0) (c 0) s) :
    ∃ x : Nat → Machine, x 0 = s ∧ (∀ j ≤ n, Rel jit k d (stale j) (c j) (x j)) ∧
      ∀ j < n, Relation.ReflTransGen jit.Step (x j) (x (j + 1)) := by
  induction n with
  | zero =>
    refine ⟨fun _ => s, rfl, fun j hj => ?_, fun j hj => absurd hj (Nat.not_lt_zero j)⟩
    rw [Nat.le_zero.mp hj]
    exact hrel
  | succ n ih =>
    obtain ⟨x, hx0, hx, hrun⟩ := ih (fun j hj => hstep j (by omega)) (fun j hj => hvalid j (by omega))
      fun j hj => htracks j (by omega)
    have hv := hvalid n (by omega)
    have hv' := hvalid (n + 1) (le_refl _)
    have htr := htracks n (by omega)
    have hmust : Must jit.Step (Rel jit k d (stale (n + 1)) (c (n + 1))) (x n) := by
      have hs := hstep n (by omega)
      generalize c (n + 1) = c' at *
      cases hs with
      | data hi ha hsem hlive => exact data_sim himpl hi ha hsem hlive hv hv' htr (hx n (le_refl n))
      | control hi ha hc hlive =>
        exact control_sim hdebug hi ha hc hlive hv hv' htr (hx n (le_refl n))
    obtain ⟨t, ht, hrel'⟩ := hmust.run
    refine ⟨fun j => if j ≤ n then x j else t, by simp [hx0], fun j hj => ?_, fun j hj => ?_⟩
    · rcases Nat.lt_or_ge n j with h | h
      · have hj' : j = n + 1 := by omega
        subst hj'
        simpa using hrel'
      · simpa [h] using hx j h
    · rcases Nat.lt_or_ge j n with h | h
      · have h1 : j ≤ n := by omega
        have h2 : j + 1 ≤ n := by omega
        simpa [h1, h2] using hrun j h
      · have hj' : j = n := by omega
        subst hj'
        simpa using ht

end

/-! ## the data opcodes of `dataStep` -/

section
variable (jit : Jit) (k : AmxConst) (d : Word)

open Classical in
/-- the data opcodes with the meaning `dataStep`, where it is defined -/
noncomputable def dataSem (i : Instruction) (a : AmxState) : Option AmxState :=
  if DataDomain i.opcode i.operand a then some (dataStep k i.opcode i.operand i.next a) else none

theorem dataSem_implements : Implements jit k d (dataSem k) := by
  intro i hi w w' s b e hsem hr hk hamx hdf hgap hb hseg
  unfold dataSem at hsem
  split at hsem
  · rename_i hdom
    cases hsem
    obtain ⟨is, hc⟩ := dataCode_of_domain hdom i.next
    have hb' : b = asm is := by
      unfold compileInstr at hb
      rw [hc] at hb
      exact (Option.some.inj hb).symm
    rw [hb'] at hseg
    obtain ⟨t, hrun, hregs, hkept, hmem⟩ := dataCode_run jit.image.addr hc hr hdom hdf hamx
    rw [hk] at hregs hmem
    refine must_run jit.driven hseg rfl hrun (.now ⟨rfl, ?_, ⟨hkept.vars, hkept.df⟩, fun o ho => ?_⟩)
    · exact ⟨hregs.eax, hregs.ecx, hregs.ebp, hregs.esp, hregs.ebx, hregs.hea⟩
    · refine hmem o fun hop => Nat.le_of_not_lt fun hlt => ho ?_
      have hsame : (dataStep k i.opcode i.operand i.next w).gap = w.gap := by
        rcases hop with h | h <;> rw [h] <;> rfl
      rw [hsame]
      exact cellAt_below hgap hlt
  · exact absurd hsem (by simp)

end

/-! ## a return address that comes to light again

Without the stale cells, with agreement everywhere outside the free gap, the simulation fails: after
a call has returned, `STACK -8` takes its return-address cell out of the gap again. -/

/-- a compiled program, every instruction one byte long -/
def Jit.load (c : CompilerImpl) (r : AmxRef) (base : Word)
    (h : (compile c r fun _ _ => 1).isSome = true)
    (hfits : base.toNat + endOff (fun _ _ => 1) 0 ((compile c r fun _ _ => 1).get h).items < 2^32) :
    Jit where
  compiler := c
  amx := r
  enc := fun _ _ => 1
  base := base
  buffer := (compile c r fun _ _ => 1).get h
  compiled := (Option.some_get h).symm
  enc_pos := fun _ _ => Nat.one_pos
  fits := hfits

namespace Jit
variable (jit : Jit)

/-- the next state, as a function -/
def next (s : Machine) : Option Machine :=
  (jit.image.fetch s.pc).bind fun r => step jit.image.addr r.1 r.2 s

def steps : Nat → Machine → Option Machine
  | 0, s => some s
  | n + 1, s => (jit.next s).bind (steps n)

theorem step_next {s t : Machine} (h : jit.Step s t) : jit.next s = some t := by
  obtain ⟨i, n, hf, hs⟩ := h
  unfold next
  rw [hf]
  exact hs

theorem steps_of_reach {s t : Machine} (h : Relation.ReflTransGen jit.Step s t) :
    ∃ n, jit.steps n s = some t := by
  obtain ⟨n, hn⟩ := Path.of_reach h
  refine ⟨n, ?_⟩
  induction hn with
  | nil s => rfl
  | cons hst _ ih =>
    have hr := Path.reach ‹_›
    show (jit.next _).bind _ = _
    rw [jit.step_next hst]
    exact ih hr

/-- after the run has ended there are no more steps -/
theorem steps_none {n m : Nat} {s : Machine} (h : jit.steps n s = none) (hm : n ≤ m) :
    jit.steps m s = none := by
  induction n generalizing m s with
  | zero => exact absurd h (by simp [steps])
  | succ n ih =>
    obtain ⟨m, rfl⟩ : ∃ k, m = k + 1 := ⟨m - 1, by omega⟩
    unfold steps at h ⊢
    cases hs : jit.next s with
    | none => rfl
    | some t =>
      rw [hs] at h
      exact ih h (by omega)

end Jit

/-- `PROC; RET; CALL 0; STACK -8; NOP` -/
def staleProgram : AmxRef := .ofCells [46, 47, 49, 0, 44, -8, 134]

theorem staleProgram_compiles :
    (compile plainCompiler staleProgram fun _ _ => 1).isSome = true := by decide +kernel

def staleJit : Jit :=
  .load plainCompiler staleProgram 0x8000 staleProgram_compiles (by decide +kernel)

def staleRun : Nat → Config
  | 0 => ⟨8, staleProgram.state, []⟩
  | 1 => ⟨0, staleProgram.state.push 16, [252]⟩
  | 2 => ⟨4, { (staleProgram.state.push 16).push 256 with frm := 248 }, [252]⟩
  | 3 => ⟨16, { (staleProgram.state.push 16).push 256 with frm := 256, stk := 256 }, []⟩
  | _ => ⟨24, { (staleProgram.state.push 16).push 256 with frm := 256, alt := 256, stk := 248 }, []⟩

theorem staleJit_instrs : staleJit.instrs = [⟨0, .proc, []⟩, ⟨4, .ret, []⟩, ⟨8, .call, [0]⟩,
    ⟨16, .stack, [-8]⟩, ⟨24, .nop, []⟩] := by decide +kernel

def staleMachine : Machine := staleProgram.machine 4096 33110

abbrev staleConst : AmxConst := ⟨0, 28, 256⟩

theorem cellsOf_nil : cellsOf [] = ∅ := by simp [cellsOf]

theorem stale_call : controlStep staleProgram ⟨8, .call, [0]⟩ (staleRun 0) = some (staleRun 1) := rfl

theorem stale_proc : controlStep staleProgram ⟨0, .proc, []⟩ (staleRun 1) = some (staleRun 2) := rfl

theorem stale_ret : controlStep staleProgram ⟨4, .ret, []⟩ (staleRun 2) = some (staleRun 3) := by
  show returnTo (staleRun 2) 0 = _
  unfold returnTo
  dsimp only
  rw [if_pos (by decide)]
  have h1 : (staleRun 2).st.cell ((staleRun 2).st.stk + 4) = 16 := by decide +kernel
  have h2 : (staleRun 2).st.cell (staleRun 2).st.stk = 256 := by decide +kernel
  rw [h1, h2]
  rfl

theorem stale_stack : dataSem staleConst ⟨16, .stack, [-8]⟩ (staleRun 3).st =
    some (staleRun 4).st := if_pos trivial

theorem stale_none {c : Config} {a : AmxState} {i : Instruction} (hi : i ∈ staleJit.instrs)
    (ha : i.address = c.cip) (hc : c.cip.toNat < 16) :
    dataSem staleConst i a = none := by
  rw [staleJit_instrs] at hi
  simp only [List.mem_cons, List.not_mem_nil, or_false] at hi
  rcases hi with rfl | rfl | rfl | rfl | rfl
  · exact if_neg id
  · exact if_neg id
  · exact if_neg id
  · rw [← ha] at hc
    exact absurd hc (by decide)
  · rw [← ha] at hc
    exact absurd hc (by decide)

theorem stale_step : ∀ j < 4, Step staleProgram staleJit.instrs (dataSem staleConst) (staleRun j)
    (staleRun (j + 1)) := by
  intro j hj
  rw [staleJit_instrs]
  rcases j with _ | _ | _ | _ | j
  · exact .control (i := ⟨8, .call, [0]⟩) (by simp) rfl stale_call (by simp [readCellsOf, cellsOf])
  · exact .control (i := ⟨0, .proc, []⟩) (by simp) rfl stale_proc (by simp [readCellsOf, cellsOf])
  · refine .control (i := ⟨4, .ret, []⟩) (by simp) rfl stale_ret ?_
    rw [Set.disjoint_left]
    rintro o ⟨p, hp, ho⟩ ⟨q, hq, ho'⟩
    have hp' : (o - 248).toNat < 4 := (List.mem_singleton.mp hp : p = 248) ▸ ho
    have hq' : (o - 252).toNat < 4 := (List.mem_singleton.mp hq : q = 252) ▸ ho'
    bv_omega
  · refine .data (i := ⟨16, .stack, [-8]⟩) (by simp) rfl stale_stack ?_
    intro w hw
    refine ⟨_, if_pos trivial, ⟨hw.pri, hw.stk, hw.frm, ?_, hw.hea, hw.mem⟩, fun o ho => rfl⟩
    show w.stk + (-8) = 248
    rw [hw.stk]
    decide
  · omega

theorem stale_valid : ∀ j ≤ 4, Valid staleJit.instrs (staleRun j) := by
  intro j hj
  rw [staleJit_instrs]
  have hlive (c : Config) (hl : c.live = []) : Disjoint (cellsOf c.live) c.st.gap := by
    rw [hl, cellsOf_nil]
    exact Set.empty_disjoint _
  have hlive' (c : Config) (hl : c.live = [252]) (hh : c.st.hea = 128)
      (hs : (c.st.stk - 128).toNat ≤ 124) : Disjoint (cellsOf c.live) c.st.gap := by
    rw [Set.disjoint_left, hl]
    rintro o ⟨p, hp, ho⟩ hg
    have ho' : (o - 252).toNat < 4 := (List.mem_singleton.mp hp : p = 252) ▸ ho
    have hg' : (o - c.st.hea).toNat < (c.st.stk - c.st.hea).toNat := hg
    rw [hh] at hg'
    bv_omega
  rcases j with _ | _ | _ | _ | _ | j
  · exact ⟨by decide, by decide, hlive _ rfl⟩
  · exact ⟨by decide, by decide, hlive' _ rfl rfl (by decide)⟩
  · exact ⟨by decide, by decide, hlive' _ rfl rfl (by decide)⟩
  · exact ⟨by decide, by decide, hlive _ rfl⟩
  · exact ⟨by decide, by decide, hlive _ rfl⟩
  · omega

theorem stale_rel (stale : Set Word) :
    Rel staleJit staleConst 4096 stale (staleRun 0) staleMachine := by
  have hn : staleJit.native 8 = some 33110 := by decide +kernel
  refine ⟨⟨(AmxRef.machine_repr staleProgram 4096 33110).toRegs, fun _ _ => rfl, ?_, rfl, rfl, rfl⟩,
    ⟨8, .call, [0]⟩, by rw [staleJit_instrs]; simp, rfl, Jit.at_native hn⟩
  intro p hp
  exact absurd hp List.not_mem_nil

/-- **With the free gap alone the simulation fails**: after STACK a cell outside the gap holds a native
return address. -/
theorem run_sim_gap_fails :
    staleJit.compiler.debugFlags = 0 ∧ Implements staleJit staleConst 4096 (dataSem staleConst) ∧
    (∀ j < 4, Step staleProgram staleJit.instrs (dataSem staleConst) (staleRun j)
      (staleRun (j + 1))) ∧
    (∀ j ≤ 4, Valid staleJit.instrs (staleRun j)) ∧
    Rel staleJit staleConst 4096 (staleRun 0).st.gap (staleRun 0) staleMachine ∧
    ¬ ∃ x : Nat → Machine, x 0 = staleMachine ∧
      (∀ j ≤ 4, Rel staleJit staleConst 4096 (staleRun j).st.gap (staleRun j) (x j)) ∧
      ∀ j < 4, Relation.ReflTransGen staleJit.Step (x j) (x (j + 1)) := by
  refine ⟨rfl, dataSem_implements _ _ _, stale_step, stale_valid, stale_rel _, ?_⟩
  rintro ⟨x, hx0, hx, hrun⟩
  have hreach : Relation.ReflTransGen staleJit.Step staleMachine (x 4) := by
    rw [← hx0]
    exact (((hrun 0 (by decide)).trans (hrun 1 (by decide))).trans (hrun 2 (by decide))).trans
      (hrun 3 (by decide))
  obtain ⟨n, hn⟩ := staleJit.steps_of_reach hreach
  have hrel := hx 4 (le_refl 4)
  have hpc : (x 4).pc = 33114 := by
    have hnat : staleJit.native 24 = some 33114 := by decide +kernel
    obtain ⟨i, hi, ha, a, hna, hat⟩ := hrel.pc
    have ha' : i.address = 24 := ha
    rw [ha', hnat] at hna
    cases hna
    have hop : i.opcode ≠ .proc := by
      have hall : ∀ i ∈ staleJit.instrs, i.address = 24 → i.opcode ≠ .proc := by
        rw [staleJit_instrs]
        decide
      exact hall i hi ha
    exact hat.elim id fun h => absurd h.1 hop
  have hcell : (x 4).mem 4348 = 16 := by
    refine (hrel.mem 252 ?_ : (x 4).mem (4096 + 252) = _).trans (by decide)
    rintro (h | h)
    · rw [show (staleRun 4).live = [] from rfl, cellsOf_nil] at h
      exact h
    · exact absurd (show ((252 : Word) - 128).toNat < (248 - 128 : Word).toNat from h) (by decide)
  have hend : staleJit.steps 14 staleMachine = none := by
    have : (staleJit.steps 14 staleMachine).isNone = true := by decide +kernel
    exact Option.isNone_iff_eq_none.mp this
  have hall : ∀ n < 14, ((staleJit.steps n staleMachine).all fun t =>
      t.pc != 33114 || t.mem 4348 != 16) = true := by decide +kernel
  rcases Nat.lt_or_ge n 14 with h | h
  · have := hall n h
    rw [hn, Option.all_some, hpc, hcell] at this
    exact absurd this (by decide)
  · rw [staleJit.steps_none hend h] at hn
    exact absurd hn (by simp)

/-- the stale cells of the run: STACK takes two of them out of the gap -/
def staleCells (j : Nat) : Set Word := (staleRun (min j 3)).st.gap

theorem mem_staleCells {o : Word} {j : Nat} : o ∈ staleCells j ↔
    (o - (staleRun (min j 3)).st.hea).toNat <
      ((staleRun (min j 3)).st.stk - (staleRun (min j 3)).st.hea).toNat := Iff.rfl

/-- the control opcodes of the run -/
theorem stale_tracks_control {j : Nat} (hj : j < 3) (i : Instruction) (hi : i ∈ staleJit.instrs)
    (ha : i.address = (staleRun j).cip)
    (hreads : Disjoint (cellsOf (readCellsOf i (staleRun j))) (staleCells j))
    (hkeeps : ∀ o, o ∈ cellsOf (staleRun j).live ∪ staleCells j →
      o ∈ cellsOf (staleRun (j + 1)).live ∪ staleCells (j + 1) ∪
        cellsOf (writtenCellsOf i (staleRun j))) :
    Tracks staleProgram staleJit.instrs (dataSem staleConst) (staleRun j) (staleCells j)
      (staleRun (j + 1)) (staleCells (j + 1)) := by
  have hat {i' : Instruction} (hi' : i' ∈ staleJit.instrs) (ha' : i'.address = (staleRun j).cip) :
      i' = i := staleJit.swept.address_inj hi' hi (ha'.trans ha.symm)
  have hgap : (staleRun (j + 1)).st.gap ⊆ staleCells (j + 1) := by
    rw [staleCells, Nat.min_eq_left (by omega)]
  refine ⟨hgap, fun i' hi' ha' h => ?_, fun i' hi' ha' h => ?_, fun i' hi' ha' h => ?_⟩
  · have hc : ∀ j < 3, (staleRun j).cip.toNat < 16 := by decide
    rw [stale_none hi' ha' (hc j hj)] at h
    exact absurd h (by simp)
  · rw [hat hi' ha']
    exact hreads
  · rw [hat hi' ha']
    exact hkeeps

theorem stale_tracks : ∀ j < 4, Tracks staleProgram staleJit.instrs (dataSem staleConst)
    (staleRun j) (staleCells j) (staleRun (j + 1)) (staleCells (j + 1)) := by
  have hmem {o : Word} {ks : List Word} : o ∈ cellsOf ks ↔ ∃ p ∈ ks, (o - p).toNat < 4 := Iff.rfl
  intro j hj
  rcases j with _ | _ | _ | _ | j
  · refine stale_tracks_control (by decide) ⟨8, .call, [0]⟩ (by rw [staleJit_instrs]; simp) rfl
      (by simp [readCellsOf, cellsOf]) fun o ho => ?_
    simp [hmem, mem_staleCells, staleRun, AmxState.push, AmxState.setCell, AmxRef.state,
      staleProgram, AmxRef.ofCells] at ho ⊢
    bv_omega
  · refine stale_tracks_control (by decide) ⟨0, .proc, []⟩ (by rw [staleJit_instrs]; simp) rfl
      (by simp [readCellsOf, cellsOf]) fun o ho => ?_
    simp [hmem, mem_staleCells, staleRun, AmxState.push, AmxState.setCell, AmxRef.state,
      staleProgram, AmxRef.ofCells, writtenCellsOf] at ho ⊢
    bv_omega
  · refine stale_tracks_control (by decide) ⟨4, .ret, []⟩ (by rw [staleJit_instrs]; simp) rfl
      (Set.disjoint_left.mpr fun o ho hs => ?_) fun o ho => ?_
    · simp [hmem, mem_staleCells, staleRun, AmxState.push, AmxState.setCell, AmxRef.state,
        staleProgram, AmxRef.ofCells, readCellsOf] at ho hs
      bv_omega
    · simp [hmem, mem_staleCells, staleRun, AmxState.push, AmxState.setCell, AmxRef.state,
        staleProgram, AmxRef.ofCells] at ho ⊢
      bv_omega
  · have hat {i : Instruction} (hi : i ∈ staleJit.instrs) (ha : i.address = (staleRun 3).cip) :
        i = ⟨16, .stack, [-8]⟩ :=
      staleJit.swept.address_inj hi (by rw [staleJit_instrs]; simp) ha
    refine ⟨fun o ho => ?_, fun i hi ha h w hw => ?_, fun i hi ha h => ?_, fun i hi ha h => ?_⟩
    · have ho' : (o - 128).toNat < (248 - 128 : Word).toNat := ho
      show (o - 128).toNat < (256 - 128 : Word).toNat
      exact lt_trans ho' (by decide)
    · rw [hat hi ha]
      refine ⟨_, if_pos trivial, ⟨hw.pri, hw.stk, hw.frm, ?_, hw.hea, hw.mem⟩, fun o ho => rfl⟩
      show w.stk + (-8) = 248
      rw [hw.stk]
      decide
    · rw [hat hi ha] at h
      exact absurd h (Option.some_ne_none _).symm
    · rw [hat hi ha] at h
      exact absurd h (Option.some_ne_none _).symm
  · omega

/-- the same run with its stale cells -/
theorem run_sim_stale : ∃ x : Nat → Machine, x 0 = staleMachine ∧
    (∀ j ≤ 4, Rel staleJit staleConst 4096 (staleCells j) (staleRun j) (x j)) ∧
    ∀ j < 4, Relation.ReflTransGen staleJit.Step (x j) (x (j + 1)) :=
  run_sim staleJit staleConst 4096 (dataSem staleConst) rfl (dataSem_implements _ _ _) staleRun
    staleCells 4 stale_step stale_valid stale_tracks staleMachine (stale_rel _)

end AmxJit
