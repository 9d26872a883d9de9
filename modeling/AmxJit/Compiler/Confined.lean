import AmxJit.Compiler.Simulation
import AmxJit.X86.Frame

/-!
# Data opcodes that write to a region only

* `Jit.inside_once`   a straight line with one instruction that stores writes to `W` only, if the
                      memory behind it differs from that in front of it in `W` only;
* `dataCode_inside`   so does the code of a data opcode, if the cell below STK is in `W`;
* `code_within`       an opcode that does not pass control is simulated by such steps if its code
                      does what its meaning says;
* `data_within`       the code of a data opcode does.
-/

namespace AmxJit
open X86 Trans Reg

section
variable {jit : Jit} {T : Word → Prop} {W : Set Word} {is : Code} {s t : Machine}

theorem closed_emit (hT : jit.Closed T) {i : Instr Cell Label} {a b : Word} (ha : T a)
    (hseg : Seg jit.image.fetch jit.image.addr a (emit i) b) : T b := by
  obtain ⟨n, hf, rfl⟩ := hseg
  exact hT.next _ _ _ ha hf

theorem closed_asm (hT : jit.Closed T) {a b : Word} (ha : T a)
    (hseg : Seg jit.image.fetch jit.image.addr a (asm is) b) : T b := by
  induction is generalizing a with
  | nil =>
    obtain rfl : a = b := hseg
    exact ha
  | cons i is ih =>
    obtain ⟨c, hf, hseg⟩ := hseg
    exact ih (hT.next _ _ _ ha hf) hseg

/-- the direction flag stays as it is -/
theorem within_df {Q : Machine → Prop} (h : Must (jit.Within T W) Q s) :
    Must (jit.Within T W) (fun t => Q t ∧ t.flags.df = s.flags.df) s := by
  apply h.reached.imp
  intro t ht
  obtain ⟨hq, hr⟩ := ht
  refine ⟨hq, ?_⟩
  clear h hq
  induction hr with
  | refl => rfl
  | tail _ hab ih =>
    obtain ⟨i, n, -, hstep⟩ := hab.step
    exact (step_df hstep).trans ih

theorem Jit.inside_quiet (his : is.any Instr.stores = false) : jit.Inside W is s := by
  induction is generalizing s with
  | nil => trivial
  | cons i is ih =>
    obtain ⟨hi, his⟩ := Bool.or_eq_false_iff.mp (List.any_cons.symm.trans his)
    intro u hu
    refine ⟨?_, ih his⟩
    rw [(exec_frame hu).2 hi]
    exact fun _ _ => rfl

theorem Jit.inside_once (his : is.countP Instr.stores ≤ 1)
    (hrun : runSeq jit.image.addr is s = some t) (hm : Set.EqOn t.mem s.mem Wᶜ) :
    jit.Inside W is s := by
  induction is generalizing s with
  | nil => trivial
  | cons i is ih =>
    intro u hu
    rw [runSeq_cons, hu] at hrun
    rw [List.countP_cons] at his
    by_cases hi : i.stores = true
    · rw [if_pos hi] at his
      have hnone : is.any Instr.stores = false := by
        rw [List.any_eq_false]
        exact List.countP_eq_zero.mp (by omega)
      refine ⟨?_, Jit.inside_quiet hnone⟩
      rw [← runSeq_mem hnone hrun]
      exact hm
    · rw [if_neg hi] at his
      have hmem : u.mem = s.mem := (exec_frame hu).2 (Bool.eq_false_iff.mpr hi)
      refine ⟨?_, ih (by omega) hrun ?_⟩
      · rw [hmem]
        exact fun _ _ => rfl
      · rw [hmem]
        exact hm

/-- a temporary cell is pushed in front of the one instruction that stores -/
theorem Jit.inside_push {o : Opnd Cell} (his : is.countP Instr.stores ≤ 1)
    (hrun : runSeq jit.image.addr (.push o :: is) s = some t) (hm : Set.EqOn t.mem s.mem Wᶜ)
    (hcell : bytes (s.esp - 4) 4 ⊆ W) : jit.Inside W (.push o :: is) s := by
  intro u hu
  rw [runSeq_cons, hu] at hrun
  obtain ⟨v, -, rfl⟩ := Option.map_eq_some_iff.mp hu
  have hpush : Set.EqOn (s.push v).mem s.mem Wᶜ :=
    eqOn_write v (Set.disjoint_compl_right_iff_subset.mpr hcell)
  exact ⟨hpush, Jit.inside_once his hrun (hm.trans hpush.symm)⟩

/-- all data opcodes but two store once at most -/
theorem dataCode_once {op : OpcodeID} {v next : Word} (hc : dataCode op v next = some is)
    (hmovs : op ≠ .movs) (hfill : op ≠ .fill) : is.countP Instr.stores ≤ 1 := by
  cases op
  case movs => exact absurd rfl hmovs
  case fill => exact absurd rfl hfill
  case lctrl =>
    have hc' : (if v = 8 then none else some (emitLctrl v next)) = some is := hc
    rw [Option.ite_none_left_eq_some] at hc'
    obtain ⟨-, hc'⟩ := hc'
    cases hc'
    unfold emitLctrl
    repeat' split
    all_goals exact Nat.le_of_ble_eq_true rfl
  case sctrl =>
    have hc' : (if v = 6 ∨ v = 8 then none else some (emitSctrl v)) = some is := hc
    rw [Option.ite_none_left_eq_some] at hc'
    obtain ⟨-, hc'⟩ := hc'
    cases hc'
    unfold emitSctrl
    repeat' split
    all_goals exact Nat.le_of_ble_eq_true rfl
  case lodbI =>
    cases hc
    unfold emitLodbI
    repeat' split
    all_goals exact Nat.le_of_ble_eq_true rfl
  case strbI =>
    cases hc
    unfold emitStrbI
    repeat' split
    all_goals exact Nat.le_of_ble_eq_true rfl
  all_goals
    cases hc <;>
      first
      | exact Nat.le_of_ble_eq_true rfl
      | (unfold emitConst; split <;> exact Nat.le_of_ble_eq_true rfl)
      | (unfold emitAlign; split <;> exact Nat.le_of_ble_eq_true rfl)
      | (unfold emitAddC; split <;> exact Nat.le_of_ble_eq_true rfl)

/-- **The code of a data opcode writes to `W` only**, if its effect is on `W` only and the cell below
STK, where it may save a register, is in `W`. -/
theorem dataCode_inside {op : OpcodeID} {v next : Word} (hc : dataCode op v next = some is)
    (hrun : runSeq jit.image.addr is s = some t) (hm : Set.EqOn t.mem s.mem Wᶜ)
    (hcell : bytes (s.esp - 4) 4 ⊆ W) : jit.Inside W is s := by
  by_cases hmovs : op = .movs
  · subst hmovs
    cases hc
    have hrest : ((if v.srem 4 = 0 then [.mov ecx (v.sdiv 4), .repMovs 4]
        else if v.srem 2 = 0 then [.mov ecx (v.sdiv 2), .repMovs 2]
        else [.mov ecx v, .repMovs 1]) ++ [.pop ecx] : Code).countP Instr.stores ≤ 1 := by
      repeat' split
      all_goals exact Nat.le_of_ble_eq_true rfl
    unfold emitMovs at hrun ⊢
    rw [List.append_assoc] at hrun ⊢
    rintro _ ⟨⟩
    refine ⟨fun _ _ => rfl, ?_⟩
    rintro _ ⟨⟩
    refine ⟨fun _ _ => rfl, ?_⟩
    exact Jit.inside_push (o := (ecx : Opnd Cell)) hrest hrun hm hcell
  by_cases hfill : op = .fill
  · subst hfill
    cases hc
    rintro _ ⟨⟩
    refine ⟨fun _ _ => rfl, ?_⟩
    exact Jit.inside_push (o := (ecx : Opnd Cell)) (Nat.le_of_ble_eq_true rfl) hrun hm hcell
  · exact Jit.inside_once (dataCode_once hc hmovs hfill) hrun hm

variable {k : AmxConst} {d : Word} {stale stale' : Set Word} {c : Config} {i : Instruction}
  {a' w w' : AmxState} {b : Buffer} {e : Word}

/-- what the code of an instruction leaves: the state `w`, but for the free gap -/
structure Shows (d : Word) (w : AmxState) (s : Machine) (e : Word) (t : Machine) : Prop where
  pc : t.pc = e
  regs : Regs d w t
  kept : Kept s t
  mem : ∀ o, o ∉ w.gap → t.mem (d + o) = w.mem o

/-- **An opcode that does not pass control is simulated** if its code does what `sem` says. -/
theorem code_within {sem : Instruction → AmxState → Option AmxState} (hT : jit.Closed T)
    (hi : i ∈ jit.instrs) (ha : i.address = c.cip) (hstep : sem i c.st = some a')
    (hlive : Untouched (sem i) c.st a' c.live (cellsOf c.live) (cellsOf c.live))
    (hv' : Valid jit.instrs ⟨i.next, a', c.live⟩)
    (htr : Tracks jit.amx jit.instrs sem c stale ⟨i.next, a', c.live⟩ stale')
    (hrel : Rel jit k d stale c s)
    (hcode : ∀ w w' a b e, AgreeOff (cellsOf c.live ∪ stale) c.st w → sem i w = some w' → T a →
      compileInstr jit.compiler jit.amx i = some b → Seg jit.image.fetch jit.image.addr a b e →
      Repr d w { s with pc := a } →
      Must (jit.Within T W) (Shows d w' { s with pc := a } e) { s with pc := a }) :
    Must (jit.Within T W) (Rel jit k d stale' ⟨i.next, a', c.live⟩) s := by
  obtain ⟨b, a, e, hb, hn, hseg, hnext⟩ := Jit.code_seg hi
  apply hrel.enter hT hi ha hn
  intro hrel' hTa
  obtain ⟨w', hw', hafter⟩ := data_rel hi ha hstep hlive hv' htr hrel' hnext
  have hagree : AgreeOff (cellsOf c.live ∪ stale) c.st { c.st with mem := s.mem.shift d } :=
    ⟨rfl, rfl, rfl, rfl, rfl, fun o ho => hrel.mem o ho⟩
  have hrepr : Repr d { c.st with mem := s.mem.shift d } { s with pc := a } :=
    ⟨⟨hrel.eax, hrel.ecx, hrel.ebp, hrel.esp, hrel.ebx, hrel.hea⟩, rfl⟩
  apply (hcode _ w' a b e hagree hw' hTa hb hseg hrepr).imp
  intro t ht
  exact hafter t ht.pc ht.regs ht.kept ht.mem

/-- **The code of a data opcode** does what `dataSem` says, and writes to `W` only. -/
theorem data_within (hT : jit.Closed T) (hs : T s.pc) (hsem : dataSem k i w = some w')
    (hrepr : Repr d w s) (hk : amxConst s.vars = k) (hamx : s.vars.rib.amx = s.vars.amxPtr)
    (hdf : s.flags.df = false) (hgap : 16 * 4 ≤ (w.stk - w.hea).toNat)
    (hW : ∀ o ∈ w.gap, d + o ∈ W) (hkeep : ∀ o, d + o ∉ W → w'.mem o = w.mem o)
    (hb : compileInstr jit.compiler jit.amx i = some b)
    (hseg : Seg jit.image.fetch jit.image.addr s.pc b e) :
    Must (jit.Within T W) (Shows d w' s e) s := by
  unfold dataSem at hsem
  split at hsem
  · rename_i hdom
    cases hsem
    obtain ⟨is, hc⟩ := dataCode_of_domain hdom i.next
    have hb' : b = asm is := by
      unfold compileInstr at hb
      rw [hc] at hb
      exact (Option.some.inj hb).symm
    rw [hb'] at hseg
    obtain ⟨t, hrun, hregs, hkept, hmem⟩ := dataCode_run jit.image.addr hc hrepr hdom hdf hamx
    rw [hk] at hregs hmem
    have hcell : bytes (s.esp - 4) 4 ⊆ W := by
      rw [hrepr.esp, sub_four]
      exact below_inside hW hgap
    have hm : Set.EqOn t.mem s.mem Wᶜ := by
      intro x hx
      have hx' : d + (x - d) = x := by rw [add_comm, BitVec.sub_add_cancel]
      have hout : d + (x - d) ∉ W := by
        rw [hx']
        exact hx
      have h1 : t.mem (d + (x - d)) = _ := hmem (x - d) fun _ =>
        Nat.le_of_not_lt fun hlt => hout (hW _ (cellAt_below hgap hlt))
      rw [hkeep _ hout, hx'] at h1
      rw [h1, ← hrepr.mem]
      show s.mem (d + (x - d)) = _
      rw [hx']
    apply Jit.must_line (s := s) hT hs hseg hrun (dataCode_inside hc hrun hm hcell)
    intro _
    refine .now ⟨rfl, ⟨hregs.eax, hregs.ecx, hregs.ebp, hregs.esp, hregs.ebx, hregs.hea⟩,
      ⟨hkept.vars, hkept.df⟩, fun o ho => hmem o fun hop => Nat.le_of_not_lt fun hlt => ho ?_⟩
    have hsame : (dataStep k i.opcode i.operand i.next w).gap = w.gap := by
      rcases hop with h | h <;> rw [h] <;> rfl
    rw [hsame]
    exact cellAt_below hgap hlt
  · exact absurd hsem (by simp)

end

end AmxJit
