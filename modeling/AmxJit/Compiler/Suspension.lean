import AmxJit.Compiler.Emitted
import AmxJit.Compiler.Table

/-!
# Return addresses of the helper calls

A script is suspended at a `HALT` or a `SYSREQ`; the CIP that is saved is looked up from the native
return address of the helper call.

* `Instruction.intrinsic`     the code that replaces a native call;
* `suspension_code`           the other native calls, and `HALT`, end in a call of a helper;
* `Resumes`                   the lookup finds a return address, and leads to the next instruction;
* `return_address_iff`        it does so exactly if there is no padding in front of it.
-/

namespace AmxJit
open X86 Trans

/-- `HALT` and the native calls -/
def OpcodeID.suspends : OpcodeID → Bool
  | .halt | .sysreqPri | .sysreqC | .sysreqD => true
  | _ => false

/-- the code that replaces the call of a well-known native -/
def Instruction.intrinsic (r : AmxRef) (i : Instruction) : Option Buffer :=
  match i.opcode with
  | .sysreqC => emitIntrinsic r (r.getNativeName i.operand) i.address
  | .sysreqD => emitIntrinsic r (r.getNativeName (r.findNative i.operand)) i.address
  | _ => none

/-- the helpers that save CIP -/
def suspendingHelpers : List Label := [.haltHelper, .sysreqCHelper, .sysreqDHelper]

theorem suspension_code {c : CompilerImpl} {r : AmxRef} {i : Instruction} {b : Buffer}
    (hop : i.opcode.suspends = true) (hintr : i.intrinsic r = none)
    (hb : compileInstr c r i = some b) :
    ∃ pre, ∃ l ∈ suspendingHelpers, b = asm pre ++ emit (.call l) := by
  unfold compileInstr controlCode at hb
  unfold Instruction.intrinsic at hintr
  revert hop hintr hb
  cases i.opcode <;> intro hop hintr hb
  case halt =>
    cases hb
    exact ⟨_, _, by decide, rfl⟩
  case sysreqPri =>
    cases hb
    exact ⟨_, _, by decide, rfl⟩
  case sysreqC =>
    have hb' : emitSysreqC c r i.address i.operand = some b := hb
    have hintr' : emitIntrinsic r (r.getNativeName i.operand) i.address = none := hintr
    unfold emitSysreqC at hb'
    dsimp only at hb'
    rw [hintr'] at hb'
    split at hb'
    · exact absurd hb' (by simp)
    · dsimp only at hb'
      split at hb' <;> cases hb' <;> exact ⟨_, _, by decide, rfl⟩
  case sysreqD =>
    have hb' : emitSysreqD r i.address i.operand = some b := hb
    have hintr' : emitIntrinsic r (r.getNativeName (r.findNative i.operand)) i.address = none :=
      hintr
    unfold emitSysreqD at hb'
    dsimp only at hb'
    rw [hintr'] at hb'
    split at hb'
    · exact absurd hb' (by simp)
    · cases hb'
      exact ⟨_, _, by decide, rfl⟩
  all_goals exact absurd hop (by decide)

namespace Jit
variable (jit : Jit)

/-- The helper call of `i` pushes the return address `ret`. -/
def Pushes (i : Instruction) (ret : Word) : Prop :=
  ∃ pre a p, ∃ l ∈ suspendingHelpers,
    compileInstr jit.compiler jit.amx i = some (asm pre ++ emit (.call l)) ∧
    jit.native i.address = some a ∧ Seg jit.image.fetch jit.image.addr a (asm pre) p ∧
    jit.image.fetch p = some (.call l, ret)

/-- instructions occupy one stretch of memory -/
theorem seg_code_inj {F : Word → Option (Instr Cell Label × Word)} {adr : Label → Option Word}
    {is : Code} {a b b' : Word} (h : Seg F adr a (asm is) b) (h' : Seg F adr a (asm is) b') :
    b = b' := by
  induction is generalizing a with
  | nil => exact Eq.trans (Eq.symm h) h'
  | cons i is ih =>
    obtain ⟨c, hc, h⟩ := h
    obtain ⟨c', hc', h'⟩ := h'
    rw [hc] at hc'
    cases hc'
    exact ih h h'

/-- it pushes one return address -/
theorem pushes_inj {i : Instruction} {r r' : Word} (h : jit.Pushes i r) (h' : jit.Pushes i r') :
    r = r' := by
  obtain ⟨pre, a, p, l, -, hb, ha, hseg, hf⟩ := h
  obtain ⟨pre', a', p', l', -, hb', ha', hseg', hf'⟩ := h'
  rw [hb] at hb'
  rw [ha] at ha'
  cases ha'
  have hcall : (emit (.call l)).length = (emit (.call l')).length := rfl
  obtain ⟨hpre, -⟩ := List.append_inj' (Option.some.inj hb') hcall
  rw [← hpre] at hseg'
  rw [seg_code_inj hseg hseg', hf'] at hf
  cases hf
  rfl

/-- The lookup finds `ret`; looking up its result leads, through no-ops, to the code at `address`. -/
def Resumes (ret address : Word) : Prop :=
  let cip := getANXAddressByJITInstrPtr jit.instrTable ret
  ⟨cip, ret⟩ ∈ jit.instrTable ∧ ∃ p, jit.native address = some p ∧
    Relation.ReflTransGen (fun x y => jit.image.fetch x = some (.nop, y))
      (getJITInstrPtr jit.instrTable cip) p

/-- the offset of the code of `j` when it is emitted from the offset `o` on -/
def codeOff (j : Instruction) (o : Nat) : Nat := if j.opcode = .proc then o + padTo 16 o else o

theorem endOff_instrLabel (j : Instruction) (o : Nat) :
    endOff jit.enc o (instrLabel j) = codeOff j o := by
  unfold instrLabel codeOff
  split <;> rfl

/-- two instructions in a row: their entries, and the code of the first -/
theorem suspension_layout {i j : Instruction} (hi : i ∈ jit.instrs) (hj : j ∈ jit.instrs)
    (hnext : j.address = i.next) :
    ∃ b oi m1 m2, compileInstr jit.compiler jit.amx i = some b ∧
      jit.buffer.instrMap =
        m1 ++ (i.address, oi) :: (j.address, codeOff j (endOff jit.enc oi b)) :: m2 ∧
      jit.native i.address = some (jit.image.at' oi) ∧
      jit.native j.address = some (jit.image.at' (codeOff j (endOff jit.enc oi b))) ∧
      Seg jit.image.fetch jit.image.addr (jit.image.at' oi) b
        (jit.image.at' (endOff jit.enc oi b)) := by
  obtain ⟨l1, l2, hl⟩ := List.append_of_mem hi
  have hlaid := jit.laid
  have hswept := jit.swept
  rw [hl] at hlaid hswept
  obtain ⟨pre, m, m', hmap, hlaid'⟩ := hlaid.tail
  obtain ⟨cur, hin, hd, hs⟩ := hswept.tail
  obtain ⟨b, m'', hb, hs1, hs2, rfl, hlaid''⟩ := hlaid'.seg
  cases l2 with
  | nil =>
    have h1 := (jit.swept.mem hj).1
    have h2 : inCode jit.amx i.next = false := hs
    rw [hnext, h2] at h1
    exact absurd h1 (by simp)
  | cons j' l2 =>
    have hj' : j' ∈ jit.instrs := by rw [hl]; simp
    have ha : j'.address = i.next := decodeInstruction_address hs.2.1
    obtain rfl := jit.swept.address_inj hj hj' (hnext.trans ha.symm)
    obtain ⟨-, m3, -, hs3, -, rfl, -⟩ := hlaid''.seg
    rw [endOff_append _ _ (_ ++ instrLabel i ++ b), endOff_append _ _ (_ ++ instrLabel i),
      jit.endOff_instrLabel] at hs3 hmap
    rw [endOff_append _ _ (_ ++ instrLabel i)] at hs2
    exact ⟨b, _, m, m3, hb, hmap, (seg_instrLabel hs1).1, (seg_instrLabel hs3).1, hs2⟩

/-- the offset behind the helper call is greater than that in front of the code -/
theorem lt_call (o : Nat) (pre : Code) (l : Label) :
    o < endOff jit.enc o (asm pre ++ emit (.call l)) := by
  rw [endOff_append]
  have h1 := le_endOff jit.enc o (asm pre)
  have h2 := jit.enc_pos (endOff jit.enc o (asm pre)) (.call l)
  show o < endOff jit.enc o (asm pre) + jit.enc (endOff jit.enc o (asm pre)) (.call l)
  omega

/-- **The return address of a suspension maps back to the following instruction exactly if there
is no padding between them**: the next instruction is not a function, or starts where the call
ends. -/
theorem return_address_iff (i j : Instruction) (hi : i ∈ jit.instrs) (hj : j ∈ jit.instrs)
    (hop : i.opcode.suspends = true) (hintr : i.intrinsic jit.amx = none)
    (hnext : j.address = i.next) :
    ∃ ret, jit.Pushes i ret ∧
      (jit.Resumes ret j.address ↔ (j.opcode = .proc → jit.image.offset ret % 16 = 0)) := by
  obtain ⟨b, oi, m1, m2, hb, hmap, hni, hnj, hseg⟩ := jit.suspension_layout hi hj hnext
  obtain ⟨pre, l, hl, rfl⟩ := suspension_code hop hintr hb
  obtain ⟨p, hs1, n, hf, rfl⟩ := seg_append.mp hseg
  have hlt := jit.lt_call oi pre l
  set o := endOff jit.enc oi (asm pre ++ emit (.call l)) with ho
  refine ⟨jit.image.at' o, ⟨pre, _, p, l, hl, hb, hni, hs1, hf⟩, ?_⟩
  obtain ⟨hle, hsorted⟩ := jit.laid.map_snd
  rw [hmap] at hle hsorted
  have hoj : codeOff j o ≤ endOff jit.enc 0 jit.buffer.items :=
    (hle (j.address, codeOff j o) (by simp)).2
  have hco : o ≤ codeOff j o := by
    unfold codeOff
    split <;> omega
  have hfits := jit.fits
  have hoff : jit.image.offset (jit.image.at' o) = o := jit.image.offset_at o (by omega)
  rw [hoff]
  have hpad : (j.opcode = .proc → o % 16 = 0) ↔ codeOff j o = o := by
    unfold codeOff padTo
    split
    · rename_i h
      simp only [h, true_imp_iff]
      omega
    · rename_i h
      simp [h]
  rw [hpad]
  constructor
  · rintro ⟨hmem, -⟩
    -- an entry with the pointer of the return address
    obtain ⟨e, he, heq⟩ := List.mem_map.mp hmem
    have hptr : jit.image.at' e.2 = jit.image.at' o := congrArg InstrTableEntry.ptr heq
    rw [hmap] at he
    have hval : e.2 = o := by
      have h1 := jit.toNat_at e.2 (hle e he).2
      have h2 := jit.toNat_at o (by omega)
      rw [hptr] at h1
      omega
    have hs := List.pairwise_append.mp hsorted
    have hc := List.pairwise_cons.mp hs.2.1
    rcases List.mem_append.mp he with hm | hm
    · have := hs.2.2 e hm (i.address, oi) List.mem_cons_self
      dsimp only at this
      omega
    · rcases List.mem_cons.mp hm with rfl | hm
      · omega
      · rcases List.mem_cons.mp hm with rfl | hm
        · exact hval
        · have := (List.pairwise_cons.mp hc.2).1 e hm
          dsimp only at this
          omega
  · intro h
    rw [h] at hnj
    have hmem : (⟨j.address, jit.image.at' o⟩ : InstrTableEntry) ∈ jit.instrTable := by
      refine List.mem_map.mpr ⟨(j.address, codeOff j o), ?_, by rw [h]⟩
      rw [hmap]
      simp
    obtain ⟨h1, -⟩ := lookup_ptr (instrTable_sorted jit) hmem
    refine ⟨h1, _, hnj, ?_⟩
    rw [lookup_address (instrTable_sorted jit) h1]

end Jit

/-- `HALT 5; NOP; HALT 5; PROC` -/
def suspendProgram : AmxRef := .ofCells [120, 5, 134, 120, 5, 46]

theorem suspendProgram_compiles :
    (compile plainCompiler suspendProgram fun _ _ => 1).isSome = true := by decide +kernel

def suspendJit : Jit :=
  .load plainCompiler suspendProgram 0x8000 suspendProgram_compiles (by decide +kernel)

theorem suspendJit_instrs : suspendJit.instrs = [⟨0, .halt, [5]⟩, ⟨8, .nop, []⟩,
    ⟨12, .halt, [5]⟩, ⟨20, .proc, []⟩] := by decide +kernel

/-- a return address in front of a function -/
theorem return_address_lost :
    ¬ ∀ i ∈ suspendJit.instrs, ∀ j ∈ suspendJit.instrs, i.opcode.suspends = true →
      i.intrinsic suspendJit.amx = none → j.address = i.next →
      ∀ ret, suspendJit.Pushes i ret → suspendJit.Resumes ret j.address := by
  intro h
  have hlost : ¬ suspendJit.Resumes 33094 20 := by
    rintro ⟨hmem, -⟩
    revert hmem
    decide +kernel
  rw [suspendJit_instrs] at h
  refine hlost (h ⟨12, .halt, [5]⟩ (by simp) ⟨20, .proc, []⟩ (by simp) rfl rfl rfl 33094 ?_)
  refine ⟨[.mov (.reg .edi) (5 : Word)], 33092, 33093, .haltHelper, by decide, rfl, ?_, ?_, ?_⟩
  · decide +kernel
  · exact ⟨33093, by decide +kernel, rfl⟩
  · decide +kernel

theorem return_address_found :
    ∃ ret, suspendJit.Pushes ⟨0, .halt, [5]⟩ ret ∧ suspendJit.Resumes ret 8 := by
  have hmem {i : Instruction} (hi : i = ⟨0, .halt, [5]⟩ ∨ i = ⟨8, .nop, []⟩) :
      i ∈ suspendJit.instrs := by
    rw [suspendJit_instrs]
    rcases hi with rfl | rfl <;> simp
  obtain ⟨ret, hret, hiff⟩ := suspendJit.return_address_iff ⟨0, .halt, [5]⟩ ⟨8, .nop, []⟩
    (hmem (.inl rfl)) (hmem (.inr rfl)) rfl rfl rfl
  exact ⟨ret, hret, hiff.mpr fun h => absurd h (by decide)⟩

end AmxJit
