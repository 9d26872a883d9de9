import AmxJit.Compiler.Compile
import AmxJit.Amx.Semantics
import AmxJit.X86.Frame
import AmxJit.X86.Strings

/-!
# The data opcodes are translated correctly

* `Regs d a s`         the machine `s` holds the registers of the AMX state `a`; the data section is
                       at `d`;
* `Repr d a s`         and its data memory;
* `dataCode_run`       the code of a data opcode takes `Repr d a` to `Repr d (dataStep .. a)`;
* `data_correct`       so does the code that the compiler emits for the instruction.

`FILL` and `MOVS` save ALT in the cell just below STK while they run; their result is the one of
`dataStep` outside that cell.
-/

namespace AmxJit
open X86

/-- `eax` = PRI, `ecx` = ALT, `ebp` = data + FRM, `esp` = data + STK, `ebx` = data -/
structure Regs (d : Word) (a : AmxState) (s : Machine) : Prop where
  eax : s.eax = a.pri
  ecx : s.ecx = a.alt
  ebp : s.ebp = d + a.frm
  esp : s.esp = d + a.stk
  ebx : s.ebx = d
  hea : s.vars.amx.hea = a.hea

structure Repr (d : Word) (a : AmxState) (s : Machine) : Prop extends Regs d a s where
  mem : s.mem.shift d = a.mem

def amxConst (v : Vars) : AmxConst := ⟨v.hdr.cod, v.hdr.dat, v.amx.stp⟩

/-- what data opcodes leave alone: the structures but for `amx->hea`, and the direction flag -/
structure Kept (s t : Machine) : Prop where
  vars : t.vars = { s.vars with amx := { s.vars.amx with hea := t.vars.amx.hea } }
  df : t.flags.df = s.flags.df

/-! ## values of the instructions -/

section
variable (x y : Word)

theorem df_sub (f : Flags) : (f.sub x y).df = f.df := rfl
theorem df_add (f : Flags) : (f.add x y).df = f.df := rfl
theorem df_logic (f : Flags) : (f.logic x).df = f.df := rfl

theorem low_append (b : Byte) : (x.extractLsb' 8 24 ++ b).extractLsb' 0 8 = b := by
  ext i hi
  simp only [BitVec.getElem_extractLsb', BitVec.getLsbD_append]
  simp [hi]

/-- the byte that `setcc` writes, extended to a cell -/
theorem setcc_value (p : Prop) [Decidable p] :
    ((x.extractLsb' 8 24 ++ (if p then 1 else 0 : Byte)).extractLsb' 0 8).setWidth 32 = truth p := by
  rw [low_append, truth]
  split <;> rfl

theorem low_bits {w : Nat} (n : Nat) (z : BitVec w) : z.extractLsb' 0 n = z.setWidth n := by
  ext i hi
  simp

theorem count_cl : (x.extractLsb' 0 8).toNat % 32 = x.toNat % 32 := by
  rw [low_bits, BitVec.toNat_setWidth]
  omega

theorem count_imm : (x.setWidth 8).toNat % 32 = x.toNat % 32 := by
  rw [BitVec.toNat_setWidth]
  omega

theorem smul_low : (x.signExtend 64 * y.signExtend 64).extractLsb' 0 32 = x * y := by
  have h (z : Word) : (z.signExtend 64).setWidth 32 = z := by
    ext i hi
    rw [BitVec.getElem_setWidth, BitVec.getLsbD_signExtend]
    simp [hi, show i < 64 by omega]
  rw [low_bits, BitVec.setWidth_mul _ _ (by omega), h, h]

theorem umul_low : (x.setWidth 64 * y.setWidth 64).extractLsb' 0 32 = x * y := by
  have h (z : Word) : (z.setWidth 64).setWidth 32 = z := by
    ext i hi
    simp
  rw [low_bits, BitVec.setWidth_mul _ _ (by omega), h, h]

theorem sub_four : x + y - 4 = x + (y - 4) := by
  simp only [BitVec.sub_eq_add_neg, BitVec.add_assoc]

theorem shift_two : x <<< 2 = x * 4 := by
  apply BitVec.eq_of_toNat_eq
  have h4 : (4 : Word).toNat = 4 := rfl
  rw [BitVec.toNat_shiftLeft, BitVec.toNat_mul, h4, Nat.shiftLeft_eq]

/-- `xor edx, edx; div`: no fault for a divisor other than 0 -/
theorem doDiv_zero {V : Type} (s : State V) (hd : s.edx = 0) (hy : y ≠ 0) :
    s.doDiv y = some { s with eax := s.eax / y, edx := s.eax % y } := by
  unfold State.doDiv
  have hn : s.edx.toNat * 2^32 + s.eax.toNat = s.eax.toNat := by
    rw [hd]
    exact Nat.zero_add _
  have hlt := s.eax.isLt
  have hdiv : s.eax.toNat / y.toNat ≤ s.eax.toNat := Nat.div_le_self _ _
  dsimp only
  rw [hn, if_neg hy, if_neg (by omega), ← BitVec.toNat_udiv, ← BitVec.toNat_umod,
    BitVec.ofNat_toNat, BitVec.ofNat_toNat, BitVec.setWidth_eq, BitVec.setWidth_eq]

end

/-! ## pieces of code -/

section
variable (adr : Label → Option Word) (s : Machine)

theorem emitConst_run (r : Reg) (v : Word) :
    ∃ f, f.df = s.flags.df ∧
      runSeq adr (emitConst r v) s = some { s.set r v with flags := f } := by
  unfold emitConst
  split
  · rename_i hv
    subst hv
    refine ⟨s.flags.logic 0, rfl, ?_⟩
    cases r <;> simp [exec, State.alu, State.load, State.store, State.get, State.set]
  · refine ⟨s.flags, rfl, ?_⟩
    cases r <;> rfl

theorem emitAddC_run (d : Opnd Cell) (v x : Word) (t : Machine) (hx : s.load d = some x)
    (ht : s.store d (x + v) = some t) :
    ∃ f, f.df = s.flags.df ∧ runSeq adr (emitAddC d v) s = some { t with flags := f } := by
  unfold emitAddC
  split
  · refine ⟨s.flags.add x v, rfl, ?_⟩
    simp only [runSeq_cons, runSeq_nil, exec, State.alu, hx, State.load_imm, Option.bind_some, ht,
      Option.map_some]
  · refine ⟨s.flags.sub x (-v), rfl, ?_⟩
    have hs : x - -v = x + v := sub_neg_eq_add x v
    simp only [runSeq_cons, runSeq_nil, exec, State.alu, hx, State.load_imm, Option.bind_some, hs,
      ht, Option.map_some]

theorem emitStack_run (v : Word) :
    ∃ f, f.df = s.flags.df ∧
      runSeq adr ([.mov (.reg .ecx) (.reg .esp), .sub (.reg .ecx) (.reg .ebx)] ++
        emitAddC (.reg .esp) v) s =
      some { s with ecx := s.esp - s.ebx, esp := s.esp + v, flags := f } := by
  obtain ⟨f, hf, hrun⟩ := emitAddC_run adr
    { s with ecx := s.esp - s.ebx, flags := s.flags.sub s.esp s.ebx } (.reg .esp) v _ _ rfl rfl
  refine ⟨f, hf, ?_⟩
  rw [runSeq_append]
  exact hrun

theorem emitHeap_run (v : Word) (hamx : s.vars.rib.amx = s.vars.amxPtr) :
    ∃ f, f.df = s.flags.df ∧
      runSeq adr ([.mov (.reg .edx) amxPtrLabel, .mov (.reg .ecx) (amxField .edx .hea)] ++
        emitAddC (amxField .edx .hea) v) s =
      some { s with
        edx := s.vars.amxPtr, ecx := s.vars.amx.hea,
        vars := { s.vars with amx := { s.vars.amx with hea := s.vars.amx.hea + v } },
        flags := f } := by
  have hedx : { s with edx := s.vars.amxPtr, ecx := s.vars.amx.hea }.get .edx =
      Cells.ptr (Cell.amx .hea) s.vars := rfl
  obtain ⟨f, hf, hrun⟩ := emitAddC_run adr
    { s with edx := s.vars.amxPtr, ecx := s.vars.amx.hea } (amxField .edx .hea) v _ _
    (State.load_field _ _ _ hedx) (State.store_field _ _ _ _ hedx)
  refine ⟨f, hf, ?_⟩
  have hedx' : { s with edx := s.vars.rib.amx }.get .edx = Cells.ptr (Cell.amx .hea) s.vars := hamx
  have hload : runSeq adr ([.mov (.reg .edx) amxPtrLabel,
      .mov (.reg .ecx) (amxField .edx .hea)] : Code) s =
      some { s with edx := s.vars.amxPtr, ecx := s.vars.amx.hea } := by
    rw [← hamx]
    exact congrArg (Option.bind · (runSeq adr [])) (congrArg (Option.bind · _)
      (State.load_field _ _ _ hedx'))
  rw [runSeq_append, hload]
  exact hrun

theorem emitAlign_run (r : Reg) (v : Word) :
    ∃ f, f.df = s.flags.df ∧
      runSeq adr (emitAlign r v) s = some { s.set r (align v (s.get r)) with flags := f } := by
  unfold emitAlign align
  split
  · refine ⟨s.flags.logic (s.get r ^^^ (4 - v)), rfl, ?_⟩
    cases r <;> rfl
  · refine ⟨s.flags, rfl, ?_⟩
    cases r <;> rfl

theorem emitUdiv_run (h : s.ecx ≠ 0) :
    runSeq adr emitUdiv s =
      some { s with
        eax := s.eax / s.ecx, ecx := s.eax % s.ecx, edx := s.eax % s.ecx,
        flags := s.flags.logic 0 } := by
  have hz : s.edx ^^^ s.edx = 0 := BitVec.xor_self
  simp only [emitUdiv, runSeq_cons, runSeq_nil, exec, State.alu, State.load, State.store, State.get,
    State.set, Option.bind_some, Option.map_some, hz]
  rw [doDiv_zero _ _ rfl h]
  rfl

theorem emitUdivAlt_run (h : s.eax ≠ 0) :
    runSeq adr (.xchg (.reg .eax) (.reg .ecx) :: emitUdiv) s =
      some { s with
        eax := s.ecx / s.eax, ecx := s.ecx % s.eax, edx := s.ecx % s.eax,
        flags := s.flags.logic 0 } := by
  have hx : exec adr (.xchg (.reg .eax) (.reg .ecx) : Instr Cell Label) s =
      some { s with eax := s.ecx, ecx := s.eax } := rfl
  rw [runSeq_cons, hx, Option.bind_some, emitUdiv_run adr _ h]

/-- `v = 0`, .., `v = 7` -/
theorem le_seven {v : Word} (h : v.toNat ≤ 7) :
    v = 0 ∨ v = 1 ∨ v = 2 ∨ v = 3 ∨ v = 4 ∨ v = 5 ∨ v = 6 ∨ v = 7 := by
  simp [← BitVec.toNat_inj]
  omega

theorem emitLctrl_run (v next : Word) (hv : v.toNat ≤ 7)
    (hamx : s.vars.rib.amx = s.vars.amxPtr) :
    ∃ f, f.df = s.flags.df ∧
      runSeq adr (emitLctrl v next) s =
        some { s with
          eax := lctrl (amxConst s.vars) v next
            ⟨s.eax, s.ecx, s.ebp - s.ebx, s.esp - s.ebx, s.vars.amx.hea, s.mem⟩,
          flags := f } := by
  rcases le_seven hv with rfl | rfl | rfl | rfl | rfl | rfl | rfl | rfl
  case inr.inr.inr.inr.inl =>
    refine ⟨s.flags.sub s.esp s.ebx, rfl, ?_⟩
    simp [emitLctrl, lctrl, exec, State.alu, State.load, State.store, State.get, State.set]
  case inr.inr.inr.inr.inr.inl =>
    refine ⟨s.flags.sub s.ebp s.ebx, rfl, ?_⟩
    simp [emitLctrl, lctrl, exec, State.alu, State.load, State.store, State.get, State.set]
  all_goals
    refine ⟨s.flags, rfl, ?_⟩
    simp [emitLctrl, lctrl, exec, State.load, State.store, State.get, State.set, amxConst,
      Cells.get, Cells.ptr, Vars.get, Vars.ptr, RuntimeInfoBlock.get, Amx.get, AmxHeader.get, hamx]

theorem emitSctrlHea_run (hamx : s.vars.rib.amx = s.vars.amxPtr) :
    runSeq adr [.mov (.reg .edx) amxPtrLabel, .mov (amxField .edx .hea) (.reg .eax)] s =
      some { s with
        edx := s.vars.amxPtr,
        vars := { s.vars with amx := { s.vars.amx with hea := s.eax } } } := by
  have hedx : { s with edx := s.vars.amxPtr }.get .edx = Cells.ptr (Cell.amx .hea) s.vars := rfl
  simp only [runSeq_cons, runSeq_nil, exec, State.load_var, State.load_reg, State.store_reg,
    Option.bind_some, State.set, Cells.get, Vars.get, RuntimeInfoBlock.get, hamx]
  rw [State.store_field _ _ _ _ hedx]
  rfl

/-- a byte register holds the low byte -/
theorem write_byte (m : Mem) (p x : Word) : m.write p 1 (x.extractLsb' 0 8) = m.write p 1 x := by
  funext y
  unfold Mem.write
  split
  · rename_i h
    have h0 : (y - p).toNat = 0 := by omega
    rw [h0]
    ext i hi
    simp
  · rfl

/-! ### block moves -/

theorem msb_of_nonneg {v : Word} (h : 0 ≤ v.toInt) : v.msb = false := by
  rw [BitVec.msb_eq_toInt, decide_eq_false_iff_not]
  omega

theorem srem_lit {v : Word} (h : 0 ≤ v.toInt) (k : Word) (hk : k.msb = false) :
    v.srem k = v % k := by
  rw [BitVec.srem_eq, msb_of_nonneg h, hk]

theorem sdiv_lit {v : Word} (h : 0 ≤ v.toInt) (k : Word) (hk : k.msb = false) :
    v.sdiv k = v / k := by
  rw [BitVec.sdiv_eq, msb_of_nonneg h, hk]
  rfl

theorem movs_count {v k : Word} (h : v % k = 0) : k.toNat * (v / k).toNat = v.toNat := by
  have hm := congrArg BitVec.toNat h
  rw [BitVec.toNat_umod] at hm
  rw [BitVec.toNat_udiv]
  have := Nat.div_add_mod v.toNat k.toNat
  have h0 : (0 : Word).toNat = 0 := rfl
  omega

/-- the copy in the middle of `emitMovs`, for some element width -/
theorem emitMovs_copy (v : Word) (h : 0 ≤ v.toInt) (t : Machine) (hdf : t.flags.df = false)
    (hsep : BlockSep t.esi t.edi v.toNat) :
    ∃ esi edi ecx, runSeq adr
      (if v.srem 4 = 0 then [.mov (.reg .ecx) (v.sdiv 4), .repMovs 4]
       else if v.srem 2 = 0 then [.mov (.reg .ecx) (v.sdiv 2), .repMovs 2]
       else [.mov (.reg .ecx) v, .repMovs 1] : Code) t =
      some { t with mem := t.mem.copy t.edi t.esi v.toNat, esi := esi, edi := edi, ecx := ecx } := by
  have run (w : Nat) (n : Word) (hw : w * n.toNat = v.toNat) :
      ∃ esi edi ecx, runSeq adr ([.mov (.reg .ecx) n, .repMovs w] : Code) t =
        some { t with mem := t.mem.copy t.edi t.esi v.toNat, esi := esi, edi := edi,
                      ecx := ecx } := by
    have hlt := v.isLt
    have hrep := repMovs_spec w n.toNat { t with ecx := n } hdf (by omega) (by rw [hw]; exact hsep)
    rw [hw] at hrep
    exact ⟨_, _, _, congrArg some hrep⟩
  rw [srem_lit h 4 rfl, srem_lit h 2 rfl, sdiv_lit h 4 rfl, sdiv_lit h 2 rfl]
  split
  · exact run 4 _ (movs_count (k := 4) (by assumption))
  · split
    · exact run 2 _ (movs_count (k := 2) (by assumption))
    · exact run 1 v (Nat.one_mul _)

/-- a block copied or filled beside a word does not change the word -/
theorem read32_copy (m : Mem) (dst src p : Word) (n : Nat)
    (h : ∀ x : Word, (x - dst).toNat < n → 4 ≤ (x - p).toNat) :
    (m.copy dst src n).read32 p = m.read32 p := by
  refine read32_congr fun x hx => if_neg fun hlt => ?_
  have := h x hlt
  omega

theorem read32_fill (m : Mem) (dst v p : Word) (n : Nat)
    (h : ∀ x : Word, (x - dst).toNat < 4 * n → 4 ≤ (x - p).toNat) :
    (m.fill32 dst n v).read32 p = m.read32 p := by
  refine read32_congr fun x hx => if_neg fun hlt => ?_
  have := h x hlt
  omega

/-- a block relative to `d` that avoids a word -/
theorem clear_shift {d a p : Word} {n : Nat}
    (h : ∀ o : Word, (o - a).toNat < n → 4 ≤ (o - p).toNat) (x : Word)
    (hx : (x - (d + a)).toNat < n) : 4 ≤ (x - (d + p)).toNat := by
  rw [sub_add_eq_sub_sub] at hx ⊢
  exact h _ hx

theorem blockSep_shift {a b : Word} {n : Nat} (d : Word) (h : BlockSep a b n) :
    BlockSep (d + a) (d + b) n := by
  intro x hx
  rw [sub_add_eq_sub_sub] at hx ⊢
  exact h _ hx

theorem emitMovs_run (v : Word) (h : 0 ≤ v.toInt) (hdf : s.flags.df = false)
    (hsep : BlockSep (s.ebx + s.eax) (s.ebx + s.ecx) v.toNat)
    (hdst : ∀ x : Word, (x - (s.ebx + s.ecx)).toNat < v.toNat → 4 ≤ (x - (s.esp - 4)).toNat) :
    ∃ esi edi, runSeq adr (emitMovs v) s =
      some { s with
        mem := (s.mem.write32 (s.esp - 4) s.ecx).copy (s.ebx + s.ecx) (s.ebx + s.eax) v.toNat,
        esi := esi, edi := edi } := by
  have h0 (x : Word) : x <<< 0 + 0 = x := by simp
  obtain ⟨esi, edi, ecx, hcopy⟩ := emitMovs_copy adr v h
    { s with
      esi := s.ebx + s.eax, edi := s.ebx + s.ecx, esp := s.esp - 4,
      mem := s.mem.write32 (s.esp - 4) s.ecx } hdf hsep
  refine ⟨esi, edi, ?_⟩
  rw [emitMovs, runSeq_append, runSeq_append]
  simp only [runSeq_cons, runSeq_nil, exec, State.load, State.get, State.set, State.ea, ptrx,
    State.push, Option.bind_some, Option.map_some, BitVec.add_assoc, h0]
  rw [hcopy]
  have htop : ((s.mem.write32 (s.esp - 4) s.ecx).copy (s.ebx + s.ecx) (s.ebx + s.eax)
      v.toNat).read32 (s.esp - 4) = s.ecx := by
    rw [read32_copy _ _ _ _ _ hdst, read32_write32_self]
  have hesp : s.esp - 4 + 4 = s.esp := BitVec.sub_add_cancel s.esp 4
  simp only [Option.bind_some, runSeq_cons, runSeq_nil, exec, State.top, State.store, State.set, htop,
    hesp]

theorem emitFill_run (v : Word) (hdf : s.flags.df = false)
    (hdst : ∀ x : Word, (x - (s.ebx + s.ecx)).toNat < 4 * (v.toNat / 4) →
      4 ≤ (x - (s.esp - 4)).toNat) :
    ∃ edi, runSeq adr (emitFill v) s =
      some { s with
        mem := (s.mem.write32 (s.esp - 4) s.ecx).fill32 (s.ebx + s.ecx) (v.toNat / 4) s.eax,
        edi := edi } := by
  have h0 (x : Word) : x <<< 0 + 0 = x := by simp
  have hlt := v.isLt
  have hn : (v / 4).toNat = v.toNat / 4 := by rw [BitVec.toNat_udiv]; rfl
  have htop : ((s.mem.write32 (s.esp - 4) s.ecx).fill32 (s.ebx + s.ecx) (v.toNat / 4)
      s.eax).read32 (s.esp - 4) = s.ecx := by
    rw [read32_fill _ _ _ _ _ hdst, read32_write32_self]
  have hesp : s.esp - 4 + 4 = s.esp := BitVec.sub_add_cancel s.esp 4
  have hrep := repStosd_spec (v.toNat / 4)
    { s with
      ecx := v / 4, edi := s.ebx + s.ecx, esp := s.esp - 4,
      mem := s.mem.write32 (s.esp - 4) s.ecx } hdf (by omega)
  refine ⟨s.ebx + s.ecx + BitVec.ofNat 32 (4 * (v.toNat / 4)), ?_⟩
  simp only [emitFill, runSeq_cons, runSeq_nil, exec, State.load, State.store, State.get, State.set,
    State.ea, ptrx, State.push, State.top, Option.bind_some, Option.map_some, BitVec.add_assoc, h0,
    hn, hrep, htop, hesp]

end

section
variable {op : OpcodeID} {v next d : Word} {is : Code} {a : AmxState} {s : Machine}

/-- the code of a data opcode does what the opcode means -/
theorem dataCode_run (adr : Label → Option Word) (hc : dataCode op v next = some is) (hr : Repr d a s)
    (hdom : DataDomain op v a) (hdf : s.flags.df = false)
    (hamx : s.vars.rib.amx = s.vars.amxPtr) :
    ∃ t, runSeq adr is s = some t ∧ Regs d (dataStep (amxConst s.vars) op v next a) t ∧
      Kept s t ∧ ∀ o, (op = .movs ∨ op = .fill → 4 ≤ (o - (a.stk - 4)).toNat) →
        t.mem.shift d o = (dataStep (amxConst s.vars) op v next a).mem o := by
  obtain ⟨eax, ecx, edx, ebx, esp, ebp, esi, edi, flags, mem, vars, pc⟩ := s
  obtain ⟨pri, alt, frm, stk, hea, amem⟩ := a
  obtain ⟨⟨h1, h2, h3, h4, h5, h6⟩, h7⟩ := hr
  dsimp only at h1 h2 h3 h4 h5 h6 h7 hdf hamx
  subst h1 h2 h3 h4 h5 h6 h7
  cases op
  case constPri =>
    cases hc
    obtain ⟨f, hf, hrun⟩ := emitConst_run adr _ .eax v
    exact ⟨_, hrun, by constructor <;> rfl, ⟨rfl, hf⟩, fun _ _ => rfl⟩
  case constAlt =>
    cases hc
    obtain ⟨f, hf, hrun⟩ := emitConst_run adr _ .ecx v
    exact ⟨_, hrun, by constructor <;> rfl, ⟨rfl, hf⟩, fun _ _ => rfl⟩
  case alignPri =>
    cases hc
    obtain ⟨f, hf, hrun⟩ := emitAlign_run adr _ .eax v
    exact ⟨_, hrun, by constructor <;> rfl, ⟨rfl, hf⟩, fun _ _ => rfl⟩
  case alignAlt =>
    cases hc
    obtain ⟨f, hf, hrun⟩ := emitAlign_run adr _ .ecx v
    exact ⟨_, hrun, by constructor <;> rfl, ⟨rfl, hf⟩, fun _ _ => rfl⟩
  case addC =>
    cases hc
    obtain ⟨f, hf, hrun⟩ := emitAddC_run adr _ (.reg .eax) v _ _ rfl rfl
    exact ⟨_, hrun, by constructor <;> rfl, ⟨rfl, hf⟩, fun _ _ => rfl⟩
  case lodbI =>
    cases hc
    have h0 (x : Word) : x <<< 0 + 0 = x := by simp
    rcases hdom with rfl | rfl | rfl
    · rw [emitLodbI, if_pos rfl]
      refine ⟨_, rfl, ?_, ⟨rfl, rfl⟩, fun _ _ => rfl⟩
      constructor <;> simp [dataStep, lodbI, State.set, State.get, State.ea, ptrx, shift_read8]
    · rw [emitLodbI, if_neg (by decide), if_pos rfl]
      refine ⟨_, rfl, ?_, ⟨rfl, rfl⟩, fun _ _ => rfl⟩
      constructor <;> simp [dataStep, lodbI, State.set, State.get, State.ea, ptrx, shift_read16]
    · rw [emitLodbI, if_neg (by decide), if_neg (by decide), if_pos rfl]
      refine ⟨_, rfl, ?_, ⟨rfl, rfl⟩, fun _ _ => rfl⟩
      constructor <;> simp [dataStep, lodbI, State.set, State.get, State.ea, ptrx, shift_read32,
        AmxState.cell]
  case strbI =>
    cases hc
    rcases hdom with rfl | rfl | rfl
    · rw [emitStrbI, if_pos rfl]
      refine ⟨_, rfl, by constructor <;> rfl, ⟨rfl, rfl⟩, fun o _ => ?_⟩
      simp [dataStep, strbI, State.get, State.get8, State.ea, ptrx, write_byte, shift_write]
    · rw [emitStrbI, if_neg (by decide), if_pos rfl]
      refine ⟨_, rfl, by constructor <;> rfl, ⟨rfl, rfl⟩, fun o _ => ?_⟩
      simp [dataStep, strbI, State.get, State.ea, ptrx, shift_write]
    · rw [emitStrbI, if_neg (by decide), if_neg (by decide), if_pos rfl]
      refine ⟨_, rfl, by constructor <;> rfl, ⟨rfl, rfl⟩, fun o _ => ?_⟩
      simp [dataStep, strbI, State.get, State.ea, ptrx, shift_write]
  case lidxB =>
    cases hc
    have hk : indexShift v = v.toNat := Nat.mod_eq_of_lt (by have : v.toNat ≤ 3 := hdom; omega)
    rw [hk]
    refine ⟨_, rfl, ?_, ⟨rfl, rfl⟩, fun _ _ => rfl⟩
    constructor <;> simp [dataStep, State.set, State.get, State.ea, ptrx, shift_read32,
      AmxState.cell, BitVec.add_assoc]
  case idxaddrB =>
    cases hc
    have hk : indexShift v = v.toNat := Nat.mod_eq_of_lt (by have : v.toNat ≤ 3 := hdom; omega)
    rw [hk]
    refine ⟨_, rfl, ?_, ⟨rfl, rfl⟩, fun _ _ => rfl⟩
    constructor <;> simp [dataStep, State.set, State.get, State.ea, ptrx]
  case lctrl =>
    have hne : v ≠ 8 := by
      rintro rfl
      exact absurd hdom (by simp [DataDomain])
    simp only [dataCode, if_neg hne, Option.some.injEq] at hc
    subst hc
    obtain ⟨f, hf, hrun⟩ := emitLctrl_run adr
      ⟨eax, ecx, edx, ebx, ebx + stk, ebx + frm, esi, edi, flags, mem, vars, pc⟩ v next hdom hamx
    refine ⟨_, hrun, ?_, ⟨rfl, hf⟩, fun _ _ => rfl⟩
    constructor <;> simp [dataStep, lctrl]
  case sctrl =>
    rcases hdom with rfl | rfl | rfl
    · simp [dataCode, emitSctrl] at hc
      subst hc
      refine ⟨_, emitSctrlHea_run adr _ hamx, ?_, ⟨rfl, rfl⟩, fun _ _ => rfl⟩
      constructor <;> simp [dataStep, sctrl]
    · simp [dataCode, emitSctrl] at hc
      subst hc
      refine ⟨_, rfl, ?_, ⟨rfl, rfl⟩, fun _ _ => rfl⟩
      constructor <;> simp [dataStep, sctrl, State.set, State.get, State.ea, ptrx]
    · simp [dataCode, emitSctrl] at hc
      subst hc
      refine ⟨_, rfl, ?_, ⟨rfl, rfl⟩, fun _ _ => rfl⟩
      constructor <;> simp [dataStep, sctrl, State.set, State.get, State.ea, ptrx]
  case stack =>
    cases hc
    obtain ⟨f, hf, hrun⟩ := emitStack_run adr
      ⟨eax, ecx, edx, ebx, ebx + stk, ebx + frm, esi, edi, flags, mem, vars, pc⟩ v
    refine ⟨_, hrun, ?_, ⟨rfl, hf⟩, fun _ _ => rfl⟩
    constructor <;> simp [dataStep, BitVec.add_assoc]
  case heap =>
    cases hc
    obtain ⟨f, hf, hrun⟩ := emitHeap_run adr
      ⟨eax, ecx, edx, ebx, ebx + stk, ebx + frm, esi, edi, flags, mem, vars, pc⟩ v hamx
    refine ⟨_, hrun, ?_, ⟨rfl, hf⟩, fun _ _ => rfl⟩
    constructor <;> rfl
  case sdiv => exact absurd hdom id
  case sdivAlt => exact absurd hdom id
  case udiv =>
    cases hc
    refine ⟨_, emitUdiv_run adr _ hdom, ?_, ⟨rfl, rfl⟩, fun _ _ => rfl⟩
    constructor <;> rfl
  case udivAlt =>
    cases hc
    refine ⟨_, emitUdivAlt_run adr _ hdom, ?_, ⟨rfl, rfl⟩, fun _ _ => rfl⟩
    constructor <;> rfl
  case movs =>
    cases hc
    obtain ⟨hn, hsep, hpri, halt⟩ := hdom
    obtain ⟨esi', edi', hrun⟩ := emitMovs_run adr
      ⟨eax, ecx, edx, ebx, ebx + stk, ebx + frm, esi, edi, flags, mem, vars, pc⟩ v hn hdf
      (blockSep_shift ebx hsep)
      (by rw [sub_four]; exact clear_shift halt)
    refine ⟨_, hrun, by constructor <;> rfl, ⟨rfl, rfl⟩, fun o ho => ?_⟩
    have ho' := ho (.inl rfl)
    show (if (ebx + o - (ebx + ecx)).toNat < v.toNat then
        mem.write32 (ebx + stk - 4) ecx (ebx + eax + (ebx + o - (ebx + ecx)))
      else mem.write32 (ebx + stk - 4) ecx (ebx + o)) =
      if (o - ecx).toNat < v.toNat then mem.shift ebx (eax + (o - ecx)) else mem.shift ebx o
    rw [add_sub_add, sub_four, BitVec.add_assoc]
    split
    · rename_i hlt
      refine write_out _ _ _ _ _ ?_
      rw [add_sub_add]
      exact hpri _ (by rwa [add_sub_left])
    · exact write_out _ _ _ _ _ (by rwa [add_sub_add])
  case fill =>
    cases hc
    obtain ⟨hn, halt⟩ := hdom
    have halt' : ∀ o : Word, (o - ecx).toNat < 4 * (v.toNat / 4) →
        4 ≤ (o - (stk - 4)).toNat := fun o ho =>
      halt o (lt_of_lt_of_le ho (Nat.mul_div_le v.toNat 4))
    obtain ⟨edi', hrun⟩ := emitFill_run adr
      ⟨eax, ecx, edx, ebx, ebx + stk, ebx + frm, esi, edi, flags, mem, vars, pc⟩ v hdf
      (by rw [sub_four]; exact clear_shift halt')
    refine ⟨_, hrun, by constructor <;> rfl, ⟨rfl, rfl⟩, fun o ho => ?_⟩
    have ho' := ho (.inr rfl)
    show (if (ebx + o - (ebx + ecx)).toNat < 4 * (v.toNat / 4) then
        eax.extractLsb' (8 * ((ebx + o - (ebx + ecx)).toNat % 4)) 8
      else mem.write32 (ebx + stk - 4) ecx (ebx + o)) =
      if (o - ecx).toNat < 4 * (v.toNat / 4) then
        eax.extractLsb' (8 * ((o - ecx).toNat % 4)) 8
      else mem.shift ebx o
    rw [add_sub_add, sub_four]
    split
    · rfl
    · exact write_out _ _ _ _ _ (by rwa [add_sub_add])
  all_goals
    cases hc
    try
      simp only [runSeq_cons, runSeq_nil, exec, State.load, State.store, State.alu, State.get,
        State.set, State.ea, State.push, State.top, ptr, ptrx, Option.bind_some, Option.map_some,
        emitSet, State.set8, State.get8, State.count, State.doShl, State.doShr, State.doSar,
        State.doImul1, State.doImul, State.doMul, State.product, smul_low, umul_low, setcc_value,
        count_cl, count_imm, sub_four, test_e]
      refine ⟨_, rfl, ?_, ?_, ?_⟩
      · constructor <;> simp [dataStep, shift_read32, BitVec.add_assoc, AmxState.cell, AmxState.setCell,
          AmxState.push, AmxState.drop, shift_two, low_bits, cmp_e, cmp_ne, cmp_b, cmp_be,
          cmp_a, cmp_ae, cmp_l, cmp_le, cmp_g, cmp_ge]
      · constructor <;> simp [df_sub, df_add, df_logic, shift_df]
      · intro o _
        simp [dataStep, shift_read32, BitVec.add_assoc, AmxState.cell, AmxState.setCell, AmxState.push,
          AmxState.drop, shift_write]

theorem dataCode_of_domain (h : DataDomain op v a) (next : Word) :
    ∃ is, dataCode op v next = some is := by
  cases op
  case lctrl =>
    have hv : v ≠ 8 := by
      rintro rfl
      exact absurd h (by simp [DataDomain])
    exact ⟨_, if_neg hv⟩
  case sctrl =>
    have hv : ¬ (v = 6 ∨ v = 8) := by
      rcases h with rfl | rfl | rfl <;> decide
    exact ⟨_, if_neg hv⟩
  all_goals
    first
    | exact ⟨_, rfl⟩
    | exact absurd h id

end

/-- **Every data opcode is translated correctly**: its code is a straight line, and running it has
exactly the effect of the opcode on PRI, ALT, FRM, STK, HEA and the data memory, but for the cell
below STK after `MOVS` and `FILL`. -/
theorem data_correct (c : CompilerImpl) (r : AmxRef) (i : Instruction) (adr : Label → Option Word)
    (d : Word) (a : AmxState) (s : Machine) (hdom : DataDomain i.opcode i.operand a)
    (hr : Repr d a s) (hdf : s.flags.df = false) (hamx : s.vars.rib.amx = s.vars.amxPtr) :
    ∃ is t, compileInstr c r i = some (asm is) ∧ runSeq adr is s = some t ∧
      let a' := dataStep (amxConst s.vars) i.opcode i.operand i.next a
      t.eax = a'.pri ∧ t.ecx = a'.alt ∧ t.ebp = d + a'.frm ∧ t.esp = d + a'.stk ∧ t.ebx = d ∧
      t.vars = { s.vars with amx := { s.vars.amx with hea := a'.hea } } ∧
      ∀ o, (i.opcode = .movs ∨ i.opcode = .fill → 4 ≤ (o - (a.stk - 4)).toNat) →
        t.mem (d + o) = a'.mem o := by
  obtain ⟨is, hc⟩ := dataCode_of_domain hdom i.next
  obtain ⟨t, hrun, hregs, hkept, hmem⟩ := dataCode_run adr hc hr hdom hdf hamx
  refine ⟨is, t, ?_, hrun, hregs.eax, hregs.ecx, hregs.ebp, hregs.esp, hregs.ebx, ?_, hmem⟩
  · unfold compileInstr
    rw [hc]
  · rw [hkept.vars, hregs.hea]

/-! ## an instance -/

/-- a compiler with all options off; its C functions lie at the top of the address space -/
def plainCompiler : CompilerImpl where
  enableSysreqD := false
  enableSleep := false
  debugFlags := 0
  isDebuggerPresent := false
  opcodeTable := []
  getPublicAddress := 0xFFFFFF00
  getJITInstrPtr := 0xFFFFFF04
  getANXAddressByJITInstrPtr := 0xFFFFFF08
  puts := 0xFFFFFF0C
  message := fun _ => 0

/-- a machine at `pc` with the registers of the AMX `r`, whose structure lies at the address 1 -/
def AmxRef.machine (r : AmxRef) (d pc : Word) : Machine where
  eax := r.amx.pri
  ecx := r.amx.alt
  edx := 0
  ebx := d
  esp := d + r.amx.stk
  ebp := d + r.amx.frm
  esi := 0
  edi := 0
  flags := ⟨false, false, false, false, false, false⟩
  mem := fun _ => 0
  vars := ⟨⟨0, 1, 0, 0, 0, 0, 0, 0, 0, 0, 0, 0⟩, r.amx, r.header, 1, fun _ _ n => (n, 0), 0⟩
  pc := pc

/-- the state of an AMX with empty memory -/
def AmxRef.state (r : AmxRef) : AmxState :=
  ⟨r.amx.pri, r.amx.alt, r.amx.frm, r.amx.stk, r.amx.hea, fun _ => 0⟩

theorem AmxRef.machine_repr (r : AmxRef) (d pc : Word) : Repr d r.state (r.machine d pc) :=
  ⟨⟨rfl, rfl, rfl, rfl, rfl, rfl⟩, rfl⟩

theorem data_correct_push :
    ∃ is t, compileInstr plainCompiler (.ofCells []) ⟨0, .pushC, [7]⟩ = some (asm is) ∧
      runSeq (fun _ => none) is ((AmxRef.ofCells []).machine 4096 0) = some t ∧
      t.esp = 4096 + 252 ∧ t.mem (4096 + 252) = 7 := by
  obtain ⟨is, t, hc, hrun, -, -, -, hesp, -, -, hmem⟩ := data_correct plainCompiler (.ofCells [])
    ⟨0, .pushC, [7]⟩ (fun _ => none) 4096 (AmxRef.ofCells []).state _ trivial
    (AmxRef.machine_repr _ 4096 0) rfl rfl
  refine ⟨is, t, hc, hrun, hesp.trans (by decide), (hmem 252 ?_).trans (by decide)⟩
  simp

end AmxJit
