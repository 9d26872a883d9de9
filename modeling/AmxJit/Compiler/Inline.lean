import AmxJit.Compiler.Compare
import AmxJit.Compiler.InPlace

/-!
# The opcodes that do not pass control

CMPS and the natives compiled in place are like data opcodes, but their code is no straight line.

* `cmpsSem`, `inPlaceSem`   what they do to the state of the abstract machine;
* `scriptSem`               the meaning of all opcodes that do not pass control;
* `script_within`           they are simulated by steps that write to `W` only.
-/

namespace AmxJit
open X86 Trans Reg

/-- CMPS of blocks that are not empty; they are clear of the cell below STK, where the code saves
ALT. -/
def cmpsSem (i : Instruction) (a : AmxState) : Option AmxState :=
  if i.operand ≠ 0 ∧
      (∀ k < i.operand.toNat, 4 ≤ (a.alt + BitVec.ofNat 32 k - (a.stk - 4)).toNat) ∧
      ∀ k < i.operand.toNat, 4 ≤ (a.pri + BitVec.ofNat 32 k - (a.stk - 4)).toNat then
    some { a with pri := blockOrder a.mem a.alt a.pri i.operand.toNat }
  else none

namespace CoreNative

def all : List CoreNative := [.min, .max, .clamp, .swapchars, .numargs, .heapspace]

/-- the `n`-th argument of a call, above their size -/
def stackArg (a : AmxState) (n : Nat) : Word := a.cell (a.stk + BitVec.ofNat 32 (4 * n))

/-- `result`, for the state of the abstract machine -/
def value (a : AmxState) : CoreNative → Word
  | .min => if (stackArg a 1).toInt ≤ (stackArg a 2).toInt then stackArg a 1 else stackArg a 2
  | .max => if (stackArg a 2).toInt ≤ (stackArg a 1).toInt then stackArg a 1 else stackArg a 2
  | .clamp => limit (stackArg a 1) (stackArg a 2) (stackArg a 3)
  | .swapchars => reverseBytes (stackArg a 1)
  | .numargs => BitVec.ofNat 32 ((a.cell (a.frm + 8)).toNat / 4)
  | .heapspace => a.stk - a.hea

/-- `Bounded`, for the state of the abstract machine -/
def inOrder (a : AmxState) : CoreNative → Bool
  | .clamp => decide ((stackArg a 2).toInt ≤ (stackArg a 3).toInt)
  | _ => true

end CoreNative

/-- the native of core.inc that is compiled in place of the call -/
def coreNative (r : AmxRef) (i : Instruction) : Option CoreNative :=
  (calledName r i).bind fun name => CoreNative.all.find? fun n => r.nameIs name (nameBytes n.name)

def inPlaceSem (r : AmxRef) (i : Instruction) (a : AmxState) : Option AmxState :=
  (coreNative r i).bind fun n => if n.inOrder a then some { a with pri := n.value a } else none

/-- the meaning of the opcodes that do not pass control -/
noncomputable def scriptSem (k : AmxConst) (r : AmxRef) (i : Instruction) (a : AmxState) :
    Option AmxState :=
  match i.opcode with
  | .cmps => cmpsSem i a
  | .sysreqC | .sysreqD => inPlaceSem r i a
  | _ => dataSem k i a

section
variable {jit : Jit} {T : Word → Prop} {W : Set Word} {s : Machine} {k : AmxConst} {d e : Word}
  {a w w' : AmxState} {i : Instruction} {b : Buffer}

/-! ## CMPS -/

theorem firstDiff_shift (m : Mem) (d x y : Word) (n : Nat) :
    (m.shift d).firstDiff x y n = m.firstDiff (d + x) (d + y) n := by
  induction n generalizing x y with
  | zero => rfl
  | succ n ih =>
    unfold Mem.firstDiff
    rw [ih, add_assoc, add_assoc]
    rfl

theorem cmps_within (hT : jit.Closed T) (hs : T s.pc) (hop : i.opcode = .cmps)
    (hsem : cmpsSem i w = some w') (hrepr : Repr d w s) (hdf : s.flags.df = false)
    (hgap : 16 * 4 ≤ (w.stk - w.hea).toNat) (hW : ∀ o ∈ w.gap, d + o ∈ W)
    (hb : compileInstr jit.compiler jit.amx i = some b)
    (hseg : Seg jit.image.fetch jit.image.addr s.pc b e) :
    Must (jit.Within T W) (Shows d w' s e) s := by
  unfold cmpsSem at hsem
  split at hsem
  swap
  · exact absurd hsem (by simp)
  rename_i hdom
  obtain ⟨hne, halt, hpri⟩ := hdom
  cases hsem
  unfold compileInstr controlCode at hb
  rw [hop] at hb
  cases (show some (emitCmps i.address i.operand) = some b from hb)
  have hclear {x : Word} (n : Nat) (hx : 4 ≤ (x + BitVec.ofNat 32 n - (w.stk - 4)).toNat) :
      4 ≤ (s.ebx + x + BitVec.ofNat 32 n - (s.esp - 4)).toNat := by
    rw [hrepr.ebx, hrepr.esp, sub_four, add_assoc, add_sub_add]
    exact hx
  obtain ⟨si, di, f, hrun, hiff⟩ := cmps_run jit.image.addr s i.operand hdf
    (fun n hn => by rw [hrepr.ecx]; exact hclear n (halt n hn))
    (fun n hn => by rw [hrepr.eax]; exact hclear n (hpri n hn))
  have hvalue : cmpsPri f = blockOrder w.mem w.alt w.pri i.operand.toNat := by
    rw [hiff.mpr (.inl hne)]
    unfold blockOrder
    rw [← hrepr.mem, firstDiff_shift, hrepr.ebx, hrepr.ecx, hrepr.eax]
  have hcell : bytes (s.esp - 4) 4 ⊆ W := by
    rw [hrepr.esp, sub_four]
    exact below_inside hW hgap
  unfold emitCmps at hseg
  simp only [List.append_assoc] at hseg
  obtain ⟨x, hs1, hs2⟩ := seg_append.mp hseg
  have hin : jit.Inside W _ s := Jit.inside_once (Nat.le_of_ble_eq_true rfl) hrun
    (eqOn_write _ (Set.disjoint_compl_right_iff_subset.mpr hcell))
  have hline : Must (jit.Within T W) (fun t => ∃ f', t = { s with
      esi := si, edi := di, mem := s.mem.write32 (s.esp - 4) s.ecx, eax := cmpsPri f, flags := f',
      pc := e }) s := by
    apply Jit.must_line (s := s) hT hs hs1 hrun hin
    intro hx
    apply within_cmps (s := { s with
      esi := si, edi := di, flags := f, mem := s.mem.write32 (s.esp - 4) s.ecx, pc := x }) hT hx
      (by simpa only [List.append_assoc] using hs2)
    intro f'
    exact .now ⟨f', rfl⟩
  apply (within_df hline).imp
  intro t ht
  obtain ⟨⟨f', rfl⟩, hflag⟩ := ht
  refine ⟨rfl, ⟨hvalue, hrepr.ecx, hrepr.ebp, hrepr.esp, hrepr.ebx, hrepr.hea⟩, ⟨rfl, hflag⟩, ?_⟩
  intro o ho
  have hout : 4 ≤ (d + o - (s.esp - 4)).toNat := by
    rw [hrepr.esp, sub_four, add_sub_add]
    exact Nat.le_of_not_lt fun hlt => ho (cellAt_below hgap hlt)
  show s.mem.write32 (s.esp - 4) s.ecx (d + o) = w.mem o
  rw [show s.mem.write32 (s.esp - 4) s.ecx (d + o) = s.mem (d + o) from write_out _ _ _ _ _ hout,
    ← hrepr.mem]
  rfl

/-! ## natives compiled in place -/

theorem coreNative_name {r : AmxRef} {n : CoreNative} (h : coreNative r i = some n) :
    ∃ name, calledName r i = some name ∧ r.nameIs name (nameBytes n.name) = true := by
  obtain ⟨name, hname, hfind⟩ := Option.bind_eq_some_iff.mp h
  exact ⟨name, hname, List.find?_some (p := fun n : CoreNative => r.nameIs name (nameBytes n.name))
    hfind⟩

theorem arg_eq (hrepr : Repr d w s) (n : Nat) : CoreNative.arg s n = CoreNative.stackArg w n := by
  unfold CoreNative.arg CoreNative.stackArg AmxState.cell
  rw [← hrepr.mem, shift_read32, hrepr.esp, add_assoc]

theorem result_eq (hrepr : Repr d w s) (n : CoreNative) : n.result s = n.value w := by
  cases n with
  | numargs =>
    have hcell : s.mem.read32 (s.ebp + 8) = w.cell (w.frm + 8) := by
      unfold AmxState.cell
      rw [← hrepr.mem, shift_read32, hrepr.ebp, add_assoc]
    show BitVec.ofNat 32 ((s.mem.read32 (s.ebp + 8)).toNat / 4) = _
    rw [hcell]
    rfl
  | heapspace =>
    show s.esp - s.ebx - s.vars.amx.hea = w.stk - w.hea
    rw [hrepr.esp, hrepr.ebx, hrepr.hea, add_comm, BitVec.add_sub_cancel]
  | _ => simp only [CoreNative.result, CoreNative.value, arg_eq hrepr]

theorem inPlace_within (hT : jit.Closed T) (hs : T s.pc) (hsem : inPlaceSem jit.amx i w = some w')
    (hrepr : Repr d w s) (hamx : s.vars.rib.amx = s.vars.amxPtr)
    (hb : compileInstr jit.compiler jit.amx i = some b)
    (hseg : Seg jit.image.fetch jit.image.addr s.pc b e) :
    Must (jit.Within T W) (Shows d w' s e) s := by
  obtain ⟨n, hn, hval⟩ := Option.bind_eq_some_iff.mp hsem
  obtain ⟨hord, hval⟩ := Option.ite_none_right_eq_some.mp hval
  cases hval
  obtain ⟨name, hcall, hname⟩ := coreNative_name hn
  rw [compileInstr_core hcall hname hb] at hseg
  have hbounded : n.Bounded s := by
    cases n with
    | clamp =>
      have hle : (CoreNative.stackArg w 2).toInt ≤ (CoreNative.stackArg w 3).toInt :=
        of_decide_eq_true hord
      rw [← arg_eq hrepr, ← arg_eq hrepr] at hle
      exact hle
    | _ => trivial
  have hyields : Yields jit T W s (n.result s) e := yields_core hT hs n hseg hamx hbounded
  apply (within_df hyields).imp
  intro t ht
  obtain ⟨⟨x, f, rfl⟩, hflag⟩ := ht
  refine ⟨rfl, ⟨result_eq hrepr n, hrepr.ecx, hrepr.ebp, hrepr.esp, hrepr.ebx, hrepr.hea⟩,
    ⟨rfl, hflag⟩, ?_⟩
  intro o _
  show s.mem (d + o) = w.mem o
  rw [← hrepr.mem]
  rfl

/-! ## all of them -/

/-- **An opcode that does not pass control is simulated** by steps between addresses with `T` that
write to `W` only. -/
theorem script_within {c : Config} {a' : AmxState} {stale stale' : Set Word} (hT : jit.Closed T)
    (hW : ∀ o ∈ c.st.gap, d + o ∈ W) (hi : i ∈ jit.instrs) (ha : i.address = c.cip)
    (hstep : scriptSem k jit.amx i c.st = some a')
    (hlive : Untouched (scriptSem k jit.amx i) c.st a' c.live (cellsOf c.live) (cellsOf c.live))
    (hv : Valid jit.instrs c) (hv' : Valid jit.instrs ⟨i.next, a', c.live⟩)
    (htr : Tracks jit.amx jit.instrs (scriptSem k jit.amx) c stale ⟨i.next, a', c.live⟩ stale')
    (hconf : ∀ w w', AgreeOff (cellsOf c.live ∪ stale) c.st w →
      scriptSem k jit.amx i w = some w' → ∀ o, d + o ∉ W → w'.mem o = w.mem o)
    (hrel : Rel jit k d stale c s) :
    Must (jit.Within T W) (Rel jit k d stale' ⟨i.next, a', c.live⟩) s := by
  apply code_within hT hi ha hstep hlive hv' htr hrel
  intro w w' a b e hagree hsem hTa hb hseg hrepr
  have hstate := hrel.toAgrees.flags hrel.df a
  have hgap : 16 * 4 ≤ (w.stk - w.hea).toNat := by
    rw [hagree.stk, hagree.hea]
    exact hv.gap
  have hgap' : w.gap = c.st.gap := by
    unfold AmxState.gap
    rw [hagree.stk, hagree.hea]
  have hW' : ∀ o ∈ w.gap, d + o ∈ W := by
    rw [hgap']
    exact hW
  have hkeep := hconf w w' hagree hsem
  unfold scriptSem at hsem
  split at hsem
  · exact cmps_within hT hTa ‹_› hsem hrepr hstate.df hgap hW' hb hseg
  · exact inPlace_within hT hTa hsem hrepr hstate.amx hb hseg
  · exact inPlace_within hT hTa hsem hrepr hstate.amx hb hseg
  · exact data_within hT hTa hsem hrepr hstate.const hstate.amx hstate.df hgap hW' hkeep hb hseg

end

end AmxJit
