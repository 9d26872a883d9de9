import AmxJit.Compiler.Confined

/-!
# Comparison of blocks

* `blockOrder`            what CMPS is for;
* `cmpsPri`               what its code makes of the flags;
* `cmps_compares_iff`     the two are equal for every block that is not empty, and for an empty one
                          exactly if the flags of the instruction before say so.
-/

namespace AmxJit
open X86 Trans Reg

/-- 0 for equal blocks, 1 or -1 if the first byte that differs is greater or smaller in ALT's block -/
def blockOrder (m : Mem) (alt pri : Word) (n : Nat) : Word :=
  match m.firstDiff alt pri n with
  | none => 0
  | some (x, y) => if x.toNat < y.toNat then -1 else 1

/-- the result by the flags: `ja`, `jb`, `jz` -/
def cmpsPri (f : Flags) : Word :=
  if Cond.a.holds f then 1 else if Cond.b.holds f then -1 else 0

theorem cmpsPri_eq (f : Flags) : cmpsPri f = if f.cf then -1 else if f.zf then 0 else 1 := by
  unfold cmpsPri Cond.holds
  cases f.cf <;> cases f.zf <;> rfl

/-- the straight part of the code -/
theorem cmps_run (adr : Label → Option Word) (s : Machine) (n : Word) (hdf : s.flags.df = false)
    (halt : ∀ k < n.toNat, 4 ≤ (s.ebx + s.ecx + BitVec.ofNat 32 k - (s.esp - 4)).toNat)
    (hpri : ∀ k < n.toNat, 4 ≤ (s.ebx + s.eax + BitVec.ofNat 32 k - (s.esp - 4)).toNat) :
    ∃ (si di : Word) (f : Flags), runSeq adr ([.lea edi (ptrx ebx eax 0), .lea esi (ptrx ebx ecx 0),
        .push ecx, .mov ecx n, .repeCmpsb, .pop ecx] : Code) s = some { s with
          esi := si, edi := di, flags := f, mem := s.mem.write32 (s.esp - 4) s.ecx } ∧
      (cmpsPri f = blockOrder s.mem (s.ebx + s.ecx) (s.ebx + s.eax) n.toNat ↔
        n ≠ 0 ∨ s.flags.zf = true ∧ s.flags.cf = false) := by
  have h0 (x y : Word) : x + y <<< 0 + 0 = x + y := by
    rw [BitVec.shiftLeft_zero]
    exact BitVec.add_zero _
  have hpop : s.esp - 4 + 4 = s.esp := BitVec.sub_add_cancel _ _
  obtain ⟨c, si, di, f, hrun, hf, hzero, hsome, hnone⟩ := repeCmpsb_spec n.toNat { s with
    edi := s.ebx + s.eax, esi := s.ebx + s.ecx, esp := s.esp - 4, ecx := n,
    mem := s.mem.write32 (s.esp - 4) s.ecx } hdf
  have hdiff : (s.mem.write32 (s.esp - 4) s.ecx).firstDiff (s.ebx + s.ecx) (s.ebx + s.eax) n.toNat =
      s.mem.firstDiff (s.ebx + s.ecx) (s.ebx + s.eax) n.toNat :=
    firstDiff_congr (fun k hk => write_out _ _ _ _ _ (halt k hk))
      fun k hk => write_out _ _ _ _ _ (hpri k hk)
  refine ⟨si, di, f, ?_, ?_⟩
  · simp only [runSeq_cons, runSeq_nil, exec, State.load, State.store, State.get, State.set,
      State.push, State.ea, ptrx, Option.bind_some, Option.map_some, h0]
    rw [hrun]
    simp only [State.top, read32_write32_self, hpop]
  · dsimp only at hsome hnone hzero
    rw [hdiff] at hsome hnone
    rw [cmpsPri_eq]
    by_cases hn : n = 0
    · subst hn
      rw [hzero rfl]
      show _ = (0 : Word) ↔ _
      cases s.flags.cf <;> cases s.flags.zf <;> simp
    · refine iff_of_true ?_ (.inl hn)
      have hpos : 0 < n.toNat := Nat.pos_of_ne_zero fun h => hn (BitVec.eq_of_toNat_eq h)
      unfold blockOrder
      cases hd : s.mem.firstDiff (s.ebx + s.ecx) (s.ebx + s.eax) n.toNat with
      | none =>
        obtain ⟨hz, hc⟩ := hnone hpos hd
        rw [hz, hc]
        rfl
      | some xy =>
        obtain ⟨x, y⟩ := xy
        obtain ⟨hz, hc⟩ := hsome x y hd
        rw [hz, hc]
        by_cases hlt : x.toNat < y.toNat
        · simp [hlt]
        · simp [hlt]

section
variable {jit : Jit} {T : Word → Prop} {W : Set Word} {s : Machine} {cip a e : Word}
  {Q : Machine → Prop}

/-- the jumps of CMPS -/
theorem within_cmps (hT : jit.Closed T) (hs : T s.pc)
    (hseg : Seg jit.image.fetch jit.image.addr s.pc (emit (.jcc .a (.here cip 0)) ++
      emit (.jcc .b (.here cip 1)) ++ emit (.jcc .e (.here cip 2)) ++
      label (.here cip 0) ++ asm [.mov eax (1 : Word)] ++ emit (.jmp (.here cip 3)) ++
      label (.here cip 1) ++ asm [.mov eax (-1 : Word)] ++ emit (.jmp (.here cip 3)) ++
      label (.here cip 2) ++ asm [.xor eax eax] ++ label (.here cip 3)) e)
    (h : ∀ f, Must (jit.Within T W) Q { s with eax := cmpsPri s.flags, flags := f, pc := e }) :
    Must (jit.Within T W) Q s := by
  simp only [List.append_assoc] at hseg
  obtain ⟨x1, hja, hseg⟩ := seg_append.mp hseg
  obtain ⟨x2, hjb, hseg⟩ := seg_append.mp hseg
  obtain ⟨x3, hjz, hseg⟩ := seg_append.mp hseg
  obtain ⟨habove, hseg⟩ := seg_label.mp hseg
  obtain ⟨x4, hone, hseg⟩ := seg_append.mp hseg
  obtain ⟨x5, hj1, hseg⟩ := seg_append.mp hseg
  obtain ⟨hbelow, hseg⟩ := seg_label.mp hseg
  obtain ⟨x6, hneg, hseg⟩ := seg_append.mp hseg
  obtain ⟨x7, hj2, hseg⟩ := seg_append.mp hseg
  obtain ⟨hequal, hseg⟩ := seg_label.mp hseg
  obtain ⟨x8, hxor, hend⟩ := seg_append.mp hseg
  obtain ⟨hcont, hx⟩ := hend
  obtain rfl : x8 = e := hx
  have h1 := closed_emit hT hs hja
  have h2 := closed_emit hT h1 hjb
  have h3 := closed_emit hT h2 hjz
  have h4 := closed_asm hT h3 hone
  have h5 := closed_emit hT h4 hj1
  have h6 := closed_asm hT h5 hneg
  have h7 := closed_emit hT h6 hj2
  have h8 := closed_asm hT h7 hxor
  have hpri {v : Word} (hv : cmpsPri s.flags = v) (f : Flags) :
      Must (jit.Within T W) Q { s with eax := v, flags := f, pc := x8 } := by
    rw [← hv]
    exact h f
  have habove' (hv : cmpsPri s.flags = 1) : Must (jit.Within T W) Q { s with pc := x3 } := by
    apply Jit.must_line (s := s) hT h3 hone rfl (Jit.inside_quiet rfl)
    intro _
    exact within_jumpsTo (s := { s with eax := 1, pc := x4 }) h4 (jumpsTo_jmp hj1) hcont h8
      (hpri hv _)
  have hbelow' (hv : cmpsPri s.flags = -1) : Must (jit.Within T W) Q { s with pc := x5 } := by
    apply Jit.must_line (s := s) hT h5 hneg rfl (Jit.inside_quiet rfl)
    intro _
    exact within_jumpsTo (s := { s with eax := -1, pc := x6 }) h6 (jumpsTo_jmp hj2) hcont h8
      (hpri hv _)
  apply within_branch hT hs hja
  · intro hc hj
    exact within_jumpsTo hs hj habove h3 (habove' (if_pos hc))
  intro ha _
  apply within_branch (s := { s with pc := x1 }) hT h1 hjb
  · intro hc hj
    have hv : cmpsPri s.flags = -1 := by
      unfold cmpsPri
      rw [if_neg (by rw [ha]; decide), if_pos hc]
    exact within_jumpsTo h1 hj hbelow h5 (hbelow' hv)
  intro hb _
  have hb' : Cond.b.holds s.flags = false := hb
  have hv : cmpsPri s.flags = 0 := by
    unfold cmpsPri
    rw [if_neg (by rw [ha]; decide), if_neg (by rw [hb']; decide)]
  have hz : s.flags.zf = true := by
    have ha' : (!(s.flags.cf || s.flags.zf)) = false := ha
    have hb' : s.flags.cf = false := hb
    rw [hb'] at ha'
    simpa using ha'
  apply within_branch (s := { s with pc := x2 }) hT h2 hjz
  · intro _ hj
    apply within_jumpsTo h2 hj hequal h7
    apply Jit.must_line (s := s) hT h7 hxor rfl (Jit.inside_quiet rfl)
    intro _
    show Must (jit.Within T W) Q { s with eax := s.eax ^^^ s.eax, flags := _, pc := x8 }
    rw [show s.eax ^^^ s.eax = 0 from BitVec.xor_self]
    exact hpri hv _
  · intro hn _
    exact absurd (hz.symm.trans hn) (by decide)

theorem must_cmps (hseg : Seg jit.image.fetch jit.image.addr a (emit (.jcc .a (.here cip 0)) ++
      emit (.jcc .b (.here cip 1)) ++ emit (.jcc .e (.here cip 2)) ++
      label (.here cip 0) ++ asm [.mov eax (1 : Word)] ++ emit (.jmp (.here cip 3)) ++
      label (.here cip 1) ++ asm [.mov eax (-1 : Word)] ++ emit (.jmp (.here cip 3)) ++
      label (.here cip 2) ++ asm [.xor eax eax] ++ label (.here cip 3)) e) (hpc : s.pc = a)
    (h : ∀ f, Must jit.Step Q { s with eax := cmpsPri s.flags, flags := f, pc := e }) :
    Must jit.Step Q s := by
  subst hpc
  have hgo : Must (jit.Within (fun _ => True) Set.univ)
      (fun t => ∃ f, t = { s with eax := cmpsPri s.flags, flags := f, pc := e }) s :=
    within_cmps jit.closed_true trivial hseg fun f => .now ⟨f, rfl⟩
  apply (Jit.must_of_within hgo).bind
  intro t ht
  obtain ⟨f, rfl⟩ := ht
  exact h f

end

/-- **CMPS compares the blocks exactly if they are not empty**, or if the flags left by the
instruction before it are those of equal operands.  It leaves all but PRI alone, and the cell below
STK. -/
theorem cmps_compares_iff (jit : Jit) (i : Instruction) (hi : i ∈ jit.instrs)
    (hop : i.opcode = .cmps) (s : Machine) (hpc : jit.native i.address = some s.pc)
    (hdf : s.flags.df = false)
    (halt : ∀ k < i.operand.toNat, 4 ≤ (s.ebx + s.ecx + BitVec.ofNat 32 k - (s.esp - 4)).toNat)
    (hpri : ∀ k < i.operand.toNat, 4 ≤ (s.ebx + s.eax + BitVec.ofNat 32 k - (s.esp - 4)).toNat) :
    ∃ e v, (∀ j ∈ jit.instrs, j.address = i.next → jit.At j e) ∧
      Must jit.Step (fun t => t.pc = e ∧ t.eax = v ∧ t.ecx = s.ecx ∧ t.esp = s.esp ∧
        t.ebp = s.ebp ∧ t.ebx = s.ebx ∧ t.vars = s.vars ∧
        ∀ a, 4 ≤ (a - (s.esp - 4)).toNat → t.mem a = s.mem a) s ∧
      (v = blockOrder s.mem (s.ebx + s.ecx) (s.ebx + s.eax) i.operand.toNat ↔
        i.operand ≠ 0 ∨ s.flags.zf = true ∧ s.flags.cf = false) := by
  obtain ⟨b, e, hb, hseg, hnext⟩ := Jit.code_at hi hpc
  unfold compileInstr controlCode at hb
  rw [hop] at hb
  cases (show some (emitCmps i.address i.operand) = some b from hb)
  obtain ⟨si, di, f, hrun, hiff⟩ := cmps_run jit.image.addr s i.operand hdf halt hpri
  unfold emitCmps at hseg
  simp only [List.append_assoc] at hseg
  obtain ⟨x, hs1, hs2⟩ := seg_append.mp hseg
  refine ⟨e, cmpsPri f, hnext, ?_, hiff⟩
  refine must_run jit.driven hs1 rfl hrun ?_
  refine must_cmps (by simpa only [List.append_assoc] using hs2) rfl fun f' => .now ?_
  exact ⟨rfl, rfl, rfl, rfl, rfl, rfl, rfl, fun a ha => write_out _ _ _ _ _ ha⟩

/-- `CMPS 0; CMPS 1; NOP` -/
def compareProgram : AmxRef := .ofCells [118, 0, 118, 1, 134]

theorem compareProgram_compiles :
    (compile plainCompiler compareProgram fun _ _ => 1).isSome = true := by decide +kernel

def compareJit : Jit :=
  .load plainCompiler compareProgram 0x8000 compareProgram_compiles (by decide +kernel)

theorem compareJit_instrs : compareJit.instrs =
    [⟨0, .cmps, [0]⟩, ⟨8, .cmps, [1]⟩, ⟨16, .nop, []⟩] := by decide +kernel

/-- `CMPS 0` with all flags clear: PRI is not 0 although the blocks, which are empty, are equal. -/
theorem cmps_empty : let s := compareProgram.machine 4096 33082
    compareJit.native 0 = some s.pc ∧ blockOrder s.mem (s.ebx + s.ecx) (s.ebx + s.eax) 0 = 0 ∧
      ∃ e v, Must compareJit.Step (fun t => t.pc = e ∧ t.eax = v) s ∧ v ≠ 0 := by
  intro s
  have hi : (⟨0, .cmps, [0]⟩ : Instruction) ∈ compareJit.instrs := by
    rw [compareJit_instrs]
    simp
  have hpc : compareJit.native 0 = some s.pc := by decide +kernel
  refine ⟨hpc, rfl, ?_⟩
  obtain ⟨b, e, hb, hseg, -⟩ := Jit.code_at hi hpc
  cases (show some (emitCmps 0 0) = some b from hb)
  obtain ⟨si, di, f, hrun, hiff⟩ := cmps_run compareJit.image.addr s 0 rfl (by decide) (by decide)
  unfold emitCmps at hseg
  simp only [List.append_assoc] at hseg
  obtain ⟨x, hs1, hs2⟩ := seg_append.mp hseg
  refine ⟨e, cmpsPri f, must_run compareJit.driven hs1 rfl hrun ?_, fun hv => ?_⟩
  · exact must_cmps (by simpa only [List.append_assoc] using hs2) rfl fun f' => .now ⟨rfl, rfl⟩
  · exact absurd (hiff.mp hv) (by decide)

/-- `CMPS 1` -/
theorem cmps_byte : let s := compareProgram.machine 4096 33096
    ∃ e v, Must compareJit.Step (fun t => t.pc = e ∧ t.eax = v) s ∧
      v = blockOrder s.mem (s.ebx + s.ecx) (s.ebx + s.eax) 1 := by
  intro s
  have hi : (⟨8, .cmps, [1]⟩ : Instruction) ∈ compareJit.instrs := by
    rw [compareJit_instrs]
    simp
  obtain ⟨e, v, -, hmust, hiff⟩ := cmps_compares_iff compareJit ⟨8, .cmps, [1]⟩ hi rfl s
    (by decide +kernel) rfl (by decide) (by decide)
  exact ⟨e, v, hmust.imp fun t ht => ⟨ht.1, ht.2.1⟩, hiff.mpr (.inl (by decide))⟩

end AmxJit
