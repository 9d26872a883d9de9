import AmxJit.Compiler.CaseTables
import AmxJit.Compiler.Compile

/-!
# Which programs compile

* `Instruction.supported`   there is code for the instruction: `compileInstr_isSome`;
* `compileWhile`            the loop of `Compile` as it stands, with the call of the error handler;
* `compileWhile_ok`         it comes to its end where the whole code is decoded and supported;
* `compileWhile_error`      it stops at the first instruction that is not;
* `compile_verdict`         so `Compile` accepts the program, or reports that instruction.
-/

namespace AmxJit
open X86

/-- the case table of a SWITCH can be read and has a default record -/
def hasDefault (r : AmxRef) (offset : Word) : Bool :=
  let count := r.mem.read32 (offset + 4)
  0 ≤ count.toInt ∧ 2 * (count.toInt + 1).toNat < VECTOR_MAX

/-- There is code for the instruction. -/
def Instruction.supported (r : AmxRef) (i : Instruction) : Bool :=
  match i.opcode with
  | .pushR | .callPri | .jrel => false
  | .sysreqC => r.getNativeName i.operand ≠ 0
  | .sysreqD => r.getNativeName (r.findNative i.operand) ≠ 0
  | .switch => hasDefault r i.operand
  | op => op.operandKind.isSome

/-- Why there is no code: the error handler has been called with the instruction at `address`, or
something has gone wrong with a case table. -/
inductive Failure where
  | error (address : Word)
  | table
  deriving DecidableEq

section
variable (opcodeTable : List Word) (r : AmxRef)

/-- what becomes of an instruction that is not decoded -/
def decodeFailure (address : Word) : Failure :=
  if (relocateOpcode opcodeTable (r.codeCell address)).bind OpcodeID.operandKind = some .table then
    .table
  else .error address

/-- what becomes of an instruction that is not supported -/
def emitFailure (i : Instruction) : Failure :=
  if i.opcode = .switch then .table else .error i.address

/-- `is` are decoded one behind the other from an address up to `a`. -/
def DecodedTo : Word → List Instruction → Word → Prop
  | cur, [], a => cur = a
  | cur, i :: is, a =>
    inCode r cur = true ∧ decodeInstruction opcodeTable r cur = some i ∧ DecodedTo i.next is a

/-- The instruction at `a` is not decoded, or not supported. -/
def Fails (a : Word) (f : Failure) : Prop :=
  inCode r a = true ∧
    (decodeInstruction opcodeTable r a = none ∧ f = decodeFailure opcodeTable r a ∨
      ∃ i, decodeInstruction opcodeTable r a = some i ∧ i.supported r = false ∧ f = emitFailure i)

end

section
variable (c : CompilerImpl) (r : AmxRef) (enc : Nat → Instr Cell Label → Nat)

/-- The loop of `Compile`: `while (!error && disasm.Decode(instr, error))`; with an error the handler
gets `instr`. -/
def compileWhile : Nat → Word → Buffer → List (Word × Nat) →
    Option (Except Failure (Buffer × List (Word × Nat)))
  | 0, _, _, _ => none
  | fuel + 1, cur, buf, map =>
    match Disassembler.decodeE c.opcodeTable r cur false with
    | (some (i, cur'), _) =>
      let start := buf ++ instrLabel i
      match compileInstr c r i with
      | some b =>
        compileWhile fuel cur' (start ++ b) (mapInsert i.address (endOff enc 0 start) map)
      | none => some (.error (emitFailure i))
    | (none, false) => some (.ok (buf, map))
    | (none, true) => some (.error (decodeFailure c.opcodeTable r cur))

/-- `Compile`, with what becomes of a program that is not accepted.  `Failure.table` stands for an
exception as well: where a `push_back` throws, the error handler is not called. -/
def compileVerdict : Option (Except Failure CodeBuffer) :=
  let numEntries := Disassembler.count c.opcodeTable r (sweepFuel r) 0
  (compileWhile c r enc (sweepFuel r) 0 (emitRuntime c numEntries) []).map fun res =>
    res.map fun res => ⟨numEntries, res.1, res.2⟩

end

section
variable {c : CompilerImpl} {r : AmxRef} {enc : Nat → Instr Cell Label → Nat} {i : Instruction}
  {is : List Instruction} {cur : Word} {fuel : Nat} {buf : Buffer} {map : List (Word × Nat)}
  {f : Failure}

/-! ## one instruction -/

theorem caseTable_isSome (r : AmxRef) (offset : Word) :
    ((caseTable r offset).bind emitSwitch).isSome = hasDefault r offset := by
  unfold caseTable hasDefault
  dsimp only
  set n := ((r.mem.read32 (offset + 4)).toInt + 1).toNat with hn
  by_cases hmax : 2 * n < VECTOR_MAX
  · rw [if_pos hmax, Option.bind_some, Bool.eq_iff_iff, CaseTable.emitSwitch_isSome,
      CaseTable.switchAccesses_iff, decide_eq_true_iff, ← List.length_pos_iff, readRecords_length]
    omega
  · rw [if_neg hmax]
    simp [hmax]

theorem emitSysreqC_isSome (cip index : Word) :
    (emitSysreqC c r cip index).isSome = decide (r.getNativeName index ≠ 0) := by
  unfold emitSysreqC
  by_cases h : r.getNativeName index = 0
  · simp [h]
  · dsimp only
    rw [if_neg h, decide_eq_true h]
    split
    · rfl
    · split <;> rfl

theorem emitSysreqD_isSome (cip address : Word) :
    (emitSysreqD r cip address).isSome = decide (r.getNativeName (r.findNative address) ≠ 0) := by
  unfold emitSysreqD
  by_cases h : r.getNativeName (r.findNative address) = 0
  · simp [h]
  · dsimp only
    rw [if_neg h, decide_eq_true h]
    split <;> rfl

theorem compileInstr_isSome (c : CompilerImpl) (r : AmxRef) (i : Instruction) :
    (compileInstr c r i).isSome = i.supported r := by
  obtain ⟨a, op, ops⟩ := i
  cases op
  case lctrl =>
    unfold compileInstr
    split <;> rfl
  case sctrl =>
    unfold compileInstr
    split
    · rfl
    · show (if _ then some _ else some _ : Option Buffer).isSome = true
      split <;> rfl
  case sysreqC => exact emitSysreqC_isSome a _
  case sysreqD => exact emitSysreqD_isSome a _
  case switch => exact caseTable_isSome r _
  all_goals rfl

theorem compileInstr_some (h : i.supported r = true) : ∃ b, compileInstr c r i = some b := by
  rw [← compileInstr_isSome c, Option.isSome_iff_exists] at h
  exact h

theorem compileInstr_none (h : i.supported r = false) : compileInstr c r i = none := by
  rw [← compileInstr_isSome c, Option.isSome_eq_false_iff, Option.isNone_iff_eq_none] at h
  exact h

/-! ## one round of the loop -/

theorem while_end (h : inCode r cur = false) :
    compileWhile c r enc (fuel + 1) cur buf map = some (.ok (buf, map)) := by
  unfold compileWhile Disassembler.decodeE
  rw [h]
  rfl

theorem while_undecoded (h : inCode r cur = true)
    (hd : decodeInstruction c.opcodeTable r cur = none) :
    compileWhile c r enc (fuel + 1) cur buf map =
      some (.error (decodeFailure c.opcodeTable r cur)) := by
  unfold compileWhile Disassembler.decodeE
  rw [h, hd]
  rfl

theorem while_unsupported (h : inCode r cur = true)
    (hd : decodeInstruction c.opcodeTable r cur = some i) (hi : i.supported r = false) :
    compileWhile c r enc (fuel + 1) cur buf map = some (.error (emitFailure i)) := by
  unfold compileWhile
  rw [decodeE_some false h hd]
  dsimp only
  rw [compileInstr_none hi]

theorem while_step {b : Buffer} (h : inCode r cur = true)
    (hd : decodeInstruction c.opcodeTable r cur = some i) (hb : compileInstr c r i = some b) :
    compileWhile c r enc (fuel + 1) cur buf map = compileWhile c r enc fuel i.next
      (buf ++ instrLabel i ++ b) (mapInsert i.address (endOff enc 0 (buf ++ instrLabel i)) map) := by
  rw [compileWhile, decodeE_some false h hd]
  dsimp only
  rw [hb]

/-! ## the loop -/

/-- **The loop comes to its end** exactly if the whole code is decoded and supported, with what
`compileLoop` makes of it. -/
theorem compileWhile_ok {res : Buffer × List (Word × Nat)} (hfuel : cellsAhead r cur < fuel) :
    compileWhile c r enc fuel cur buf map = some (.ok res) ↔
      ∃ is, Swept c.opcodeTable r cur is ∧ compileLoop c r enc is buf map = some res := by
  induction fuel generalizing cur buf map with
  | zero => exact absurd hfuel (Nat.not_lt_zero _)
  | succ fuel ih =>
    by_cases hin : inCode r cur = true
    swap
    · rw [while_end (Bool.eq_false_iff.mpr hin)]
      constructor
      · intro h
        exact ⟨[], Bool.eq_false_iff.mpr hin, by simpa [compileLoop] using h⟩
      · intro h
        obtain ⟨is, hs, hl⟩ := h
        cases is with
        | nil => simpa [compileLoop] using hl
        | cons i is => exact absurd hs.1 hin
    cases hd : decodeInstruction c.opcodeTable r cur with
    | none =>
      rw [while_undecoded hin hd]
      constructor
      · intro h
        exact absurd h (by simp)
      · intro h
        obtain ⟨is, hs, -⟩ := h
        cases is with
        | nil => exact absurd hs (by simp [Swept, hin])
        | cons i is => exact absurd (hd.symm.trans hs.2.1) (by simp)
    | some i =>
      have hlt := cellsAhead_next hin hd
      cases hb : compileInstr c r i with
      | none =>
        have hi : i.supported r = false := by
          rw [← compileInstr_isSome c, hb]
          rfl
        rw [while_unsupported hin hd hi]
        constructor
        · intro h
          exact absurd h (by simp)
        · intro h
          obtain ⟨is, hs, hl⟩ := h
          cases is with
          | nil => exact absurd hs (by simp [Swept, hin])
          | cons j is =>
            obtain rfl : i = j := Option.some.inj (hd.symm.trans hs.2.1)
            exact absurd hl (by simp [compileLoop, hb])
      | some b =>
        rw [while_step hin hd hb, ih (by omega)]
        constructor
        · intro h
          obtain ⟨is, hs, hl⟩ := h
          exact ⟨i :: is, ⟨hin, hd, hs⟩, by simpa [compileLoop, hb] using hl⟩
        · intro h
          obtain ⟨is, hs, hl⟩ := h
          cases is with
          | nil => exact absurd hs (by simp [Swept, hin])
          | cons j is =>
            obtain rfl : i = j := Option.some.inj (hd.symm.trans hs.2.1)
            exact ⟨is, hs.2.2, by simpa [compileLoop, hb] using hl⟩

/-- **The loop stops** exactly at the first instruction that is not decoded or not supported. -/
theorem compileWhile_error (hfuel : cellsAhead r cur < fuel) :
    compileWhile c r enc fuel cur buf map = some (.error f) ↔
      ∃ is a, DecodedTo c.opcodeTable r cur is a ∧ (∀ i ∈ is, i.supported r = true) ∧
        Fails c.opcodeTable r a f := by
  induction fuel generalizing cur buf map with
  | zero => exact absurd hfuel (Nat.not_lt_zero _)
  | succ fuel ih =>
    by_cases hin : inCode r cur = true
    swap
    · rw [while_end (Bool.eq_false_iff.mpr hin)]
      constructor
      · intro h
        exact absurd h (by simp)
      · intro h
        obtain ⟨is, a, hl, -, hf⟩ := h
        cases is with
        | nil =>
          obtain rfl : cur = a := hl
          exact absurd hf.1 hin
        | cons i is => exact absurd hl.1 hin
    cases hd : decodeInstruction c.opcodeTable r cur with
    | none =>
      rw [while_undecoded hin hd]
      constructor
      · intro h
        obtain rfl : decodeFailure c.opcodeTable r cur = f := by simpa using h
        exact ⟨[], cur, rfl, by simp, hin, .inl ⟨hd, rfl⟩⟩
      · intro h
        obtain ⟨is, a, hl, -, hf⟩ := h
        cases is with
        | nil =>
          obtain rfl : cur = a := hl
          obtain ⟨-, ⟨-, rfl⟩ | ⟨i, hi, -⟩⟩ := hf
          · rfl
          · exact absurd (hd.symm.trans hi) (by simp)
        | cons i is => exact absurd (hd.symm.trans hl.2.1) (by simp)
    | some i =>
      have hlt := cellsAhead_next hin hd
      cases hi : i.supported r with
      | false =>
        rw [while_unsupported hin hd hi]
        constructor
        · intro h
          obtain rfl : emitFailure i = f := by simpa using h
          exact ⟨[], cur, rfl, by simp, hin, .inr ⟨i, hd, hi, rfl⟩⟩
        · intro h
          obtain ⟨is, a, hl, hall, hf⟩ := h
          cases is with
          | nil =>
            obtain rfl : cur = a := hl
            obtain ⟨-, ⟨hnone, -⟩ | ⟨j, hj, -, rfl⟩⟩ := hf
            · exact absurd (hd.symm.trans hnone) (by simp)
            · rw [Option.some.inj (hd.symm.trans hj)]
          | cons j is =>
            obtain rfl : i = j := Option.some.inj (hd.symm.trans hl.2.1)
            exact absurd (hi.symm.trans (hall i (.head _))) (by simp)
      | true =>
        obtain ⟨b, hb⟩ := compileInstr_some (c := c) hi
        rw [while_step hin hd hb, ih (by omega)]
        constructor
        · intro h
          obtain ⟨is, a, hl, hall, hf⟩ := h
          exact ⟨i :: is, a, ⟨hin, hd, hl⟩, List.forall_mem_cons.mpr ⟨hi, hall⟩, hf⟩
        · intro h
          obtain ⟨is, a, hl, hall, hf⟩ := h
          cases is with
          | nil =>
            obtain rfl : cur = a := hl
            obtain ⟨-, ⟨hnone, -⟩ | ⟨j, hj, hno, -⟩⟩ := hf
            · exact absurd (hd.symm.trans hnone) (by simp)
            · rw [← Option.some.inj (hd.symm.trans hj), hi] at hno
              exact absurd hno (by simp)
          | cons j is =>
            obtain rfl : i = j := Option.some.inj (hd.symm.trans hl.2.1)
            exact ⟨is, a, hl.2.2, (List.forall_mem_cons.mp hall).2, hf⟩

/-- The fuel suffices. -/
theorem compileWhile_isSome (hfuel : cellsAhead r cur < fuel) :
    (compileWhile c r enc fuel cur buf map).isSome = true := by
  induction fuel generalizing cur buf map with
  | zero => exact absurd hfuel (Nat.not_lt_zero _)
  | succ fuel ih =>
    by_cases hin : inCode r cur = true
    swap
    · rw [while_end (Bool.eq_false_iff.mpr hin)]
      rfl
    cases hd : decodeInstruction c.opcodeTable r cur with
    | none =>
      rw [while_undecoded hin hd]
      rfl
    | some i =>
      have hlt := cellsAhead_next hin hd
      cases hi : i.supported r with
      | false =>
        rw [while_unsupported hin hd hi]
        rfl
      | true =>
        obtain ⟨b, hb⟩ := compileInstr_some (c := c) hi
        rw [while_step hin hd hb]
        exact ih (by omega)

/-! ## `Compile` -/

theorem compileLoop_isSome : (compileLoop c r enc is buf map).isSome = is.all (·.supported r) := by
  induction is generalizing buf map with
  | nil => rfl
  | cons i is ih =>
    rw [List.all_cons, ← compileInstr_isSome c]
    unfold compileLoop
    cases hb : compileInstr c r i with
    | none => rfl
    | some b => exact ih

theorem compile_eq_some {res : CodeBuffer} : compile c r enc = some res ↔
    ∃ is, Swept c.opcodeTable r 0 is ∧ res.numEntries =
        Disassembler.count c.opcodeTable r (sweepFuel r) 0 ∧
      compileLoop c r enc is (emitRuntime c res.numEntries) [] = some (res.items, res.instrMap) := by
  unfold compile
  dsimp only
  rw [Option.bind_eq_some_iff]
  constructor
  · intro h
    obtain ⟨is, his, h⟩ := h
    obtain ⟨out, hl, rfl⟩ := Option.map_eq_some_iff.mp h
    exact ⟨is, sweep_swept his, rfl, hl⟩
  · intro h
    obtain ⟨is, hs, hn, hl⟩ := h
    refine ⟨is, sweep_of_swept hs, Option.map_eq_some_iff.mpr ⟨_, hn ▸ hl, ?_⟩⟩
    rw [← hn]

/-- **`Compile` accepts a program exactly if all its code is decoded and supported**, whatever the
options.  Otherwise it stops at the first instruction that is not, and reports that one. -/
theorem compile_verdict (c : CompilerImpl) (r : AmxRef) (enc : Nat → Instr Cell Label → Nat) :
    (∀ res, compileVerdict c r enc = some (.ok res) ↔ compile c r enc = some res) ∧
    ((compile c r enc).isSome = true ↔
      ∃ is, Swept c.opcodeTable r 0 is ∧ ∀ i ∈ is, i.supported r = true) ∧
    (∀ f, compileVerdict c r enc = some (.error f) ↔
      ∃ is a, DecodedTo c.opcodeTable r 0 is a ∧ (∀ i ∈ is, i.supported r = true) ∧
        Fails c.opcodeTable r a f) ∧
    (compileVerdict c r enc).isSome = true := by
  have hfuel := cellsAhead_lt r
  unfold compileVerdict
  dsimp only
  refine ⟨?_, ?_, ?_, ?_⟩
  · intro res
    rw [compile_eq_some, Option.map_eq_some_iff]
    constructor
    · intro h
      obtain ⟨out, hout, hres⟩ := h
      cases out with
      | error f => exact absurd hres (by simp [Except.map])
      | ok out =>
        obtain ⟨is, hs, hl⟩ := (compileWhile_ok hfuel).mp hout
        obtain rfl := Except.ok.inj hres
        exact ⟨is, hs, rfl, hl⟩
    · intro h
      obtain ⟨is, hs, hn, hl⟩ := h
      rw [hn] at hl
      refine ⟨_, (compileWhile_ok hfuel).mpr ⟨is, hs, hl⟩, ?_⟩
      show Except.ok (⟨_, res.items, res.instrMap⟩ : CodeBuffer) = .ok res
      rw [← hn]
  · rw [Option.isSome_iff_exists]
    constructor
    · intro h
      obtain ⟨res, h⟩ := h
      obtain ⟨is, hs, -, hl⟩ := compile_eq_some.mp h
      have hall : is.all (·.supported r) = true := by
        rw [← compileLoop_isSome, hl]
        rfl
      exact ⟨is, hs, List.all_eq_true.mp hall⟩
    · intro h
      obtain ⟨is, hs, hall⟩ := h
      have hsome : (compileLoop c r enc is
          (emitRuntime c (Disassembler.count c.opcodeTable r (sweepFuel r) 0)) []).isSome = true := by
        rw [compileLoop_isSome]
        exact List.all_eq_true.mpr hall
      obtain ⟨out, hl⟩ := Option.isSome_iff_exists.mp hsome
      exact ⟨⟨_, out.1, out.2⟩, compile_eq_some.mpr ⟨is, hs, rfl, hl⟩⟩
  · intro f
    rw [Option.map_eq_some_iff, ← compileWhile_error hfuel]
    constructor
    · intro h
      obtain ⟨out, hout, hres⟩ := h
      cases out with
      | error g =>
        obtain rfl := Except.error.inj hres
        exact hout
      | ok out => exact absurd hres (by simp [Except.map])
    · intro h
      exact ⟨_, h, rfl⟩
  · rw [Option.isSome_map]
    exact compileWhile_isSome hfuel

end

end AmxJit
