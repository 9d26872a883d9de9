import AmxJit.Compiler.Simulation
import AmxJit.X86.Effect

/-!
# What the emitted code refers to and writes

* `references b`             the AMX addresses that the jumps and calls of a buffer lead to;
* `Instruction.targets`      the targets of an instruction: its code refers to them alone
                             (`compileInstr_emitted`);
* `references_decoded_iff`   the references of a compiled program lead to instructions exactly if
                             the targets are addresses of instructions;
* `calmBuffer`               a buffer writes neither `ebx` nor the structures, but for `amx->hea` and
                             `amx->stk`: so does the code of an instruction;
* `switch_selects`           `SWITCH` goes to the first record with the value of PRI.
-/

namespace AmxJit
open X86 Trans

/-! ## references -/

/-- the AMX address an item of the buffer leads to -/
def reference : Item Cell Label → Option Word
  | .instr i => match i.dest with
    | some (.cip a) => some a
    | _ => none
  | _ => none

def references (b : Buffer) : List Word := b.filterMap reference

/-- no write to `ebx`, nor to the structures but for `amx->hea` and `amx->stk` -/
def calm (i : Instr Cell Label) : Bool :=
  !i.writes .ebx && i.cells.all fun c => c = .amx .hea || c = .amx .stk

def calmItem : Item Cell Label → Bool
  | .instr i => calm i
  | _ => true

def calmBuffer (b : Buffer) : Bool := b.all calmItem

/-- calm code without references -/
def Inner (b : Buffer) : Prop := references b = [] ∧ calmBuffer b = true

/-- calm instructions, none of them a jump or a call -/
def straight (is : Code) : Bool := is.all fun i => i.dest.isNone && calm i

section
variable {b b' : Buffer} {is js : Code}

@[simp] theorem references_append : references (b ++ b') = references b ++ references b' :=
  List.filterMap_append

@[simp] theorem calmBuffer_append : calmBuffer (b ++ b') = (calmBuffer b && calmBuffer b') :=
  List.all_append

theorem Inner.append (h : Inner b) (h' : Inner b') : Inner (b ++ b') := by
  refine ⟨?_, ?_⟩
  · rw [references_append, h.1, h'.1]
    rfl
  · rw [calmBuffer_append, h.2, h'.2]
    rfl

theorem straight_append : straight (is ++ js) = (straight is && straight js) := List.all_append

theorem inner_asm (h : straight is = true) : Inner (asm is) := by
  have hi := List.all_eq_true.mp h
  refine ⟨List.filterMap_eq_nil_iff.mpr ?_, List.all_eq_true.mpr ?_⟩ <;> intro it hit
  · obtain ⟨i, hm, rfl⟩ := List.mem_map.mp hit
    have hn := Option.isNone_iff_eq_none.mp (Bool.and_eq_true_iff.mp (hi i hm)).1
    show (match i.dest with
      | some (.cip a) => some a
      | _ => none) = none
    rw [hn]
  · obtain ⟨i, hm, rfl⟩ := List.mem_map.mp hit
    exact (Bool.and_eq_true_iff.mp (hi i hm)).2

end

/-- the static jump, call and case targets of an instruction -/
def Instruction.targets (r : AmxRef) (i : Instruction) : List Word :=
  match i.opcode.jumpCond with
  | some _ => [i.operand - r.code]
  | none =>
    match i.opcode with
    | .call | .jump | .jzer | .jnz => [i.operand - r.code]
    | .switch => ((caseTable r i.operand).getD []).map CaseRecord.address
    | _ => []

section
variable (c : CompilerImpl) (r : AmxRef)

/-! ## data opcodes -/

theorem straight_emitAddC (d : Opnd Cell) (v : Word) (hd : calm (.add d v) = true) :
    straight (emitAddC d v) = true := by
  unfold emitAddC
  split <;> exact Bool.and_eq_true_iff.mpr ⟨hd, rfl⟩

theorem dataCode_straight {op : OpcodeID} {v next : Word} {is : Code}
    (h : dataCode op v next = some is) : straight is = true := by
  cases op <;> simp only [dataCode, Option.some.injEq, reduceCtorEq] at h <;> try subst h
  case lctrl =>
    split at h
    · exact absurd h (by simp)
    · cases h
      unfold emitLctrl
      split_ifs <;> rfl
  case sctrl =>
    split at h
    · exact absurd h (by simp)
    · cases h
      unfold emitSctrl
      split_ifs <;> rfl
  case stack =>
    rw [straight_append, straight_emitAddC _ _ rfl]
    rfl
  case heap =>
    rw [straight_append, straight_emitAddC _ _ rfl]
    rfl
  case addC => exact straight_emitAddC _ _ rfl
  case lodbI =>
    unfold emitLodbI
    split_ifs <;> rfl
  case strbI =>
    unfold emitStrbI
    split_ifs <;> rfl
  case constPri =>
    unfold emitConst
    split_ifs <;> rfl
  case constAlt =>
    unfold emitConst
    split_ifs <;> rfl
  case alignPri =>
    unfold emitAlign
    split_ifs <;> rfl
  case alignAlt =>
    unfold emitAlign
    split_ifs <;> rfl
  case movs =>
    unfold emitMovs
    split_ifs <;> rfl
  all_goals rfl

/-! ## the other opcodes -/

theorem inner_emitDebugBreakpoint : Inner (asm (emitDebugBreakpoint c)) := by
  unfold emitDebugBreakpoint
  split <;> exact ⟨rfl, rfl⟩

theorem intrinsics_inner (cip : Word) : ∀ e ∈ intrinsics cip, Inner e.2 := by
  intro e he
  simp only [intrinsics, List.mem_cons, List.not_mem_nil, or_false] at he
  rcases he with rfl | rfl | rfl | rfl | rfl | rfl | rfl | rfl | rfl | rfl | rfl | rfl | rfl | rfl <;>
    exact ⟨rfl, rfl⟩

theorem emitIntrinsic_inner {name cip : Word} {b : Buffer} (h : emitIntrinsic r name cip = some b) :
    Inner b := by
  obtain ⟨e, he, rfl⟩ := Option.map_eq_some_iff.mp h
  exact intrinsics_inner cip e (List.mem_of_find?_eq_some he)

theorem emitSysreqC_inner {cip index : Word} {b : Buffer}
    (h : emitSysreqC c r cip index = some b) : Inner b := by
  unfold emitSysreqC at h
  dsimp only at h
  split at h
  · exact absurd h (by simp)
  · split at h
    · rename_i b' hb
      cases h
      exact emitIntrinsic_inner r hb
    · split at h <;> cases h <;> exact ⟨rfl, rfl⟩

theorem emitSysreqD_inner {cip address : Word} {b : Buffer}
    (h : emitSysreqD r cip address = some b) : Inner b := by
  unfold emitSysreqD at h
  dsimp only at h
  split at h
  · exact absurd h (by simp)
  · split at h
    · rename_i b' hb
      cases h
      exact emitIntrinsic_inner r hb
    · cases h
      exact ⟨rfl, rfl⟩

theorem emitBounds_inner (cip value : Word) : Inner (emitBounds c cip value) := by
  unfold emitBounds
  have h := inner_emitDebugBreakpoint c
  exact (((((((Inner.append ⟨rfl, rfl⟩ ⟨rfl, rfl⟩).append ⟨rfl, rfl⟩).append ⟨rfl, rfl⟩).append
    ⟨rfl, rfl⟩).append ⟨rfl, rfl⟩).append h).append ⟨rfl, rfl⟩).append ⟨rfl, rfl⟩

theorem flatMap_emitCase (records : List CaseRecord) :
    references (records.flatMap emitCase) = records.map CaseRecord.address ∧
      calmBuffer (records.flatMap emitCase) = true := by
  induction records with
  | nil => exact ⟨rfl, rfl⟩
  | cons r rs ih =>
    rw [List.flatMap_cons, references_append, calmBuffer_append, ih.1, ih.2]
    exact ⟨rfl, rfl⟩

theorem emitSwitch_emitted {records : List CaseRecord} {b : Buffer}
    (h : emitSwitch records = some b) :
    (∀ a, a ∈ references b ↔ a ∈ records.map CaseRecord.address) ∧ calmBuffer b = true := by
  obtain ⟨default, hdef, rfl⟩ := Option.map_eq_some_iff.mp h
  obtain ⟨⟨v, _⟩, cases, rfl⟩ : ∃ d cs, records = d :: cs := by
    cases records with
    | nil => exact absurd hdef (by simp [CaseTable.getDefaultAddress])
    | cons d cs => exact ⟨d, cs, rfl⟩
  obtain rfl : _ = default := Option.some.inj hdef
  obtain ⟨hrefs, hcalm⟩ := flatMap_emitCase cases
  unfold emitCases
  split
  · refine ⟨fun a => ?_, ?_⟩
    · simp only [references_append, List.tail_cons, hrefs, List.map_cons, List.mem_append, List.mem_cons]
      simp [references, reference, emit, asm, code, Instr.dest]
      tauto
    · simp only [calmBuffer_append, List.tail_cons, hcalm]
      rfl
  · rename_i hnone
    have hempty : cases = [] := by
      cases hmin : CaseTable.findMinValue (⟨v, default⟩ :: cases) with
      | none => exact findBest_none hmin
      | some x =>
        cases hmax : CaseTable.findMaxValue (⟨v, default⟩ :: cases) with
        | none => exact findBest_none hmax
        | some y => exact (hnone x y hmin hmax).elim
    subst hempty
    exact ⟨fun a => Iff.rfl, rfl⟩

theorem dataCode_targets {i : Instruction} {is : Code}
    (h : dataCode i.opcode i.operand i.next = some is) : i.targets r = [] := by
  unfold Instruction.targets
  revert h
  cases i.opcode <;> intro h <;> first | rfl | exact absurd h (by simp [dataCode])

/-- **The code of an instruction refers to its targets alone, and is calm.** -/
theorem compileInstr_emitted {i : Instruction} {b : Buffer} (h : compileInstr c r i = some b) :
    (∀ a, a ∈ references b ↔ a ∈ i.targets r) ∧ calmBuffer b = true := by
  have hinner (h : Inner b) (ht : i.targets r = []) :
      (∀ a, a ∈ references b ↔ a ∈ i.targets r) ∧ calmBuffer b = true := by
    rw [h.1, ht]
    exact ⟨fun a => Iff.rfl, h.2⟩
  unfold compileInstr at h
  split at h
  · rename_i is hd
    cases h
    exact hinner (inner_asm (dataCode_straight hd)) (dataCode_targets r hd)
  · have hsome {cond : Cond} (hc : i.opcode.jumpCond = some cond) :
        i.targets r = [i.operand - r.code] := by
      unfold Instruction.targets
      rw [hc]
    have hnone (hc : i.opcode.jumpCond = none) : i.targets r =
        match i.opcode with
        | .call | .jump | .jzer | .jnz => [i.operand - r.code]
        | .switch => ((caseTable r i.operand).getD []).map CaseRecord.address
        | _ => [] := by
      unfold Instruction.targets
      rw [hc]
    unfold controlCode at h
    dsimp only at h
    split at h
    · rename_i hcond
      cases h
      rw [hsome hcond]
      exact ⟨fun a => Iff.rfl, rfl⟩
    · rename_i hcond
      have ht := hnone hcond
      split at h <;> rename_i hop <;> try rw [hop] at ht
      case h_2 => split at h <;> cases h <;> exact hinner ⟨rfl, rfl⟩ ht
      case h_7 | h_8 | h_9 | h_10 =>
        cases h
        rw [ht]
        exact ⟨fun a => Iff.rfl, rfl⟩
      case h_13 =>
        cases h
        exact hinner (emitBounds_inner c _ _) ht
      case h_15 => exact hinner (emitSysreqC_inner c r h) ht
      case h_16 => exact hinner (emitSysreqD_inner r h) ht
      case h_17 =>
        obtain ⟨records, hrec, h⟩ := Option.bind_eq_some_iff.mp h
        rw [ht, hrec]
        exact emitSwitch_emitted h
      case h_20 =>
        cases h
        exact hinner (inner_emitDebugBreakpoint c) ht
      case h_21 => exact absurd h (by simp)
      all_goals
        cases h
        exact hinner ⟨rfl, rfl⟩ ht

/-! ## the whole buffer -/

theorem references_emitDebugPrint (m : String) : references (asm (emitDebugPrint c m)) = [] := by
  unfold emitDebugPrint
  split <;> rfl

theorem references_ite (p : Prop) [Decidable p] (b b' : Buffer) :
    references (if p then b else b') = if p then references b else references b' := by
  split <;> rfl

/-- the runtime refers to no instruction -/
theorem references_runtime (n : Nat) : references (emitRuntime c n) = [] := by
  have hasm (is js : Code) : asm (is ++ js) = asm is ++ asm js := List.map_append
  unfold emitRuntime emitExec emitExecHelper emitExecContHelper emitHaltHelper emitSysreqCHelper
    emitSysreqDHelper sysreqEnter sysreqLeave
  simp only [references_append, references_ite, hasm, references_emitDebugPrint,
    List.append_eq_nil_iff]
  cases c.enableSleep <;> and_intros <;> first | rfl | trivial

end

section
variable {jit : Jit} {is : List Instruction} {buf : Buffer} {map : List (Word × Nat)}

theorem Laid.references
    (h : Laid jit.compiler jit.amx jit.enc is buf jit.buffer.items map) (a : Word) :
    a ∈ references jit.buffer.items ↔
      a ∈ AmxJit.references buf ∨ ∃ i ∈ is, a ∈ i.targets jit.amx := by
  induction is generalizing buf map with
  | nil =>
    rw [h.1]
    simp
  | cons i is ih =>
    obtain ⟨b, m, hb, -, h⟩ := h
    have hl : AmxJit.references (instrLabel i) = [] := by
      unfold instrLabel
      split <;> rfl
    rw [ih h, references_append, references_append, hl, List.append_nil, List.mem_append,
      (compileInstr_emitted _ _ hb).1 a, List.exists_mem_cons_iff, or_assoc]

/-- the labels of instructions that a buffer binds -/
theorem Laid.cip_mem
    (h : Laid jit.compiler jit.amx jit.enc is buf jit.buffer.items map) {a : Word}
    (ha : .cip a ∈ X86.labels jit.buffer.items) :
    .cip a ∈ X86.labels buf ∨ ∃ i ∈ is, i.address = a := by
  induction is generalizing buf map with
  | nil =>
    rw [h.1] at ha
    exact .inl ha
  | cons i is ih =>
    obtain ⟨b, m, hb, -, h⟩ := h
    obtain ⟨-, hhere⟩ := compileInstr_labels _ _ hb
    rcases ih h with hm | ⟨j, hj, hja⟩
    · simp only [labels_append, labels_instrLabel, List.mem_append, List.mem_singleton] at hm
      rcases hm with (hm | hm) | hm
      · exact .inl hm
      · exact .inr ⟨i, List.mem_cons_self, (Label.cip.inj hm).symm⟩
      · obtain ⟨n, hn⟩ := hhere _ hm
        exact absurd hn (by simp)
    · exact .inr ⟨j, List.mem_cons_of_mem i hj, hja⟩

end

namespace Jit
variable (jit : Jit)

/-- only instructions have a native address -/
theorem native_decoded {a p : Word} (h : jit.native a = some p) :
    ∃ i ∈ jit.instrs, i.address = a := by
  have hl : .cip a ∈ labels jit.buffer.items := by
    by_contra hn
    have h0 : labelOff jit.enc (.cip a) 0 jit.buffer.items = none := labelOff_none _ _ _ _ hn
    have h' : (labelOff jit.enc (.cip a) 0 jit.buffer.items).map jit.image.at' = some p := h
    rw [h0] at h'
    exact absurd h' (by simp)
  rcases jit.laid.cip_mem hl with hm | hi
  · rw [runtime, labels_runtime] at hm
    exact absurd hm (runtimeLabels_fixed _ a 0).1
  · exact hi

/-- the address of a decoded instruction -/
def Decoded (a : Word) : Prop := ∃ i ∈ jit.instrs, i.address = a

/-- the start of the code of a decoded instruction -/
def StartAt (p : Word) : Prop := ∃ i ∈ jit.instrs, jit.native i.address = some p

/-- **The jumps and calls of the script lead to instructions exactly if all targets are
instructions.** -/
theorem references_decoded_iff :
    (∀ a ∈ references jit.buffer.items, ∃ p, jit.native a = some p ∧ jit.StartAt p) ↔
      ∀ i ∈ jit.instrs, ∀ a ∈ i.targets jit.amx, jit.Decoded a := by
  have hrt : references jit.runtime = [] := references_runtime _ _
  constructor
  · intro h i hi a ha
    obtain ⟨p, hp, -⟩ := h a ((jit.laid.references a).mpr (.inr ⟨i, hi, ha⟩))
    exact jit.native_decoded hp
  · intro h a ha
    rcases (jit.laid.references a).mp ha with hm | ⟨i, hi, hm⟩
    · rw [hrt] at hm
      exact absurd hm List.not_mem_nil
    · obtain ⟨j, hj, rfl⟩ := h i hi a hm
      obtain ⟨p, hp, -⟩ := jit.native_mem hj
      exact ⟨p, hp, j, hj, hp⟩

end Jit

/-! ## SWITCH -/

/-- **`SWITCH` selects the right case**: its code leads to a jump, which is taken, to the target of
the first record with the value of PRI, or to the default target if there is none; it changes
nothing but the flags.  If the target is an instruction, its code comes next. -/
theorem switch_selects (jit : Jit) (i : Instruction) (hi : i ∈ jit.instrs) (hop : i.opcode = .switch)
    (default : CaseRecord) (cases : List CaseRecord)
    (hrec : caseTable jit.amx i.operand = some (default :: cases)) (s : Machine)
    (hpc : jit.native i.address = some s.pc) :
    let target := ((cases.find? fun r => r.value == s.eax).map CaseRecord.address).getD
      default.address
    Must jit.Step (fun t => ∃ f p, t = { s with flags := f, pc := p } ∧
      jit.JumpsTo (.cip target) t) s ∧
    ∀ a, jit.native target = some a →
      Must jit.Step (fun t => ∃ f, t = { s with flags := f, pc := a }) s := by
  intro target
  obtain ⟨b, e, hb, hseg, -⟩ := Jit.code_at hi hpc
  have hb' : emitSwitch (default :: cases) = some b := by
    unfold compileInstr controlCode at hb
    rw [hop] at hb
    have hb' : (caseTable jit.amx i.operand).bind emitSwitch = some b := hb
    rwa [hrec] at hb'
  have htarget : switchTarget (default :: cases) s.eax = some target := by
    unfold switchTarget
    show _ = some (((cases.find? fun r => r.value == s.eax).map CaseRecord.address).getD
      default.address)
    rw [List.tail_cons]
    cases cases.find? fun r => r.value == s.eax <;> rfl
  refine ⟨emitSwitch_run hb' hseg htarget fun f p _ hj => .now ⟨f, p, rfl, hj⟩, fun a ha => ?_⟩
  exact emitSwitch_run hb' hseg htarget fun f p _ hj => must_jumpsTo hj ha (.now ⟨f, rfl⟩)

/-- `SWITCH 16; ZERO.PRI; ZERO.ALT; CASETBL`, with the default target 8 and the targets 0, 12 and 8 for
the values 5, 7 and 9 -/
def switchProgram : AmxRef := .ofCells [129, 16, 89, 90, 130, 3, 8, 5, 0, 7, 12, 9, 8]

theorem switchProgram_compiles :
    (compile plainCompiler switchProgram fun _ _ => 1).isSome = true := by decide +kernel

def switchJit : Jit :=
  .load plainCompiler switchProgram 0x8000 switchProgram_compiles (by decide +kernel)

/-- the case with the value 7 -/
theorem switch_selects_case :
    let s := { switchProgram.machine 4096 33090 with eax := 7 }
    Must switchJit.Step (fun t => ∃ f, t = { s with flags := f, pc := 33102 }) s := by
  have hinstrs : switchJit.instrs = [⟨0, .switch, [16]⟩, ⟨8, .zeroPri, []⟩, ⟨12, .zeroAlt, []⟩,
      ⟨16, .casetbl, [3, 8, 5, 0, 7, 12, 9, 8]⟩] := by decide +kernel
  have hs : switchJit.native 0 = some 33090 := by decide +kernel
  have hn : switchJit.native 12 = some 33102 := by decide +kernel
  refine (switch_selects switchJit ⟨0, .switch, [16]⟩ ?_ rfl ⟨3, 8⟩
    [⟨5, 0⟩, ⟨7, 12⟩, ⟨9, 8⟩] ?_ { switchProgram.machine 4096 33090 with eax := 7 } hs).2 33102 hn
  · rw [hinstrs]
    exact List.mem_cons_self
  · decide +kernel

end AmxJit
