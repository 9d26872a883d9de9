import AmxJit.Amx.Extent

/-!
# Assembling, and disassembling again

* `opcodeCell`       the code cell of an opcode;
* `assemble`         the code cells of a list of instructions;
* `wellFormed`       the operands are those of the opcode; `Consecutive`: no gap between instructions;
* `sweep_assemble`   the disassembler gets back what has been assembled;
* `assemble_sweep`   assembling what the disassembler has found gives back the code cells.
-/

namespace AmxJit
open X86

/-- The cell that stands for an opcode: its entry in the opcode table of the interpreter, its number in
builds without relocation. -/
def opcodeCell (opcodeTable : List Word) (op : OpcodeID) : Word :=
  opcodeTable.getD op.ctorIdx (BitVec.ofNat 32 op.ctorIdx)

/-- The opcode table of the interpreter has a cell of its own for every opcode; there is none in builds
without relocation. -/
def Distinct (opcodeTable : List Word) : Prop :=
  opcodeTable = [] ∨
    NUM_OPCODES ≤ opcodeTable.length ∧ (opcodeTable.take NUM_OPCODES).Nodup

namespace Instruction

def cells (opcodeTable : List Word) (i : Instruction) : List Word :=
  opcodeCell opcodeTable i.opcode :: i.operands

/-- The opcode has these operands; those of a CASETBL begin with the number of its cases. -/
def wellFormed (i : Instruction) : Bool :=
  match i.opcode.operandKind with
  | some .one => i.operands.length = 1
  | some .zero => i.operands.length = 0
  | some .table => 0 < i.operands.length ∧ i.operands.length < VECTOR_MAX ∧
      i.operands.length = tableOperands i.operand
  | none => false

end Instruction

def assemble (opcodeTable : List Word) (is : List Instruction) : List Word :=
  is.flatMap fun i => i.cells opcodeTable

/-- The instructions follow one another from `address` on. -/
def Consecutive : Word → List Instruction → Prop
  | _, [] => True
  | address, i :: is => i.address = address ∧ Consecutive i.next is

section
variable {opcodeTable : List Word} {r : AmxRef} {address : Word} {i : Instruction}
  {is : List Instruction}

/-! ## opcodes -/

theorem ctorIdx_lt (op : OpcodeID) : op.ctorIdx < NUM_OPCODES := by
  cases op <;> exact Nat.le_of_ble_eq_true rfl

theorem relocate_opcodeCell (h : Distinct opcodeTable) (op : OpcodeID) :
    relocateOpcode opcodeTable (opcodeCell opcodeTable op) = some op := by
  have hlt := ctorIdx_lt op
  have hsmall : (BitVec.ofNat 32 op.ctorIdx).toNat = op.ctorIdx := by
    rw [BitVec.toNat_ofNat]
    exact Nat.mod_eq_of_lt (hlt.trans (by decide))
  have hfind : findOpcode (opcodeTable.take NUM_OPCODES) (opcodeCell opcodeTable op) =
      BitVec.ofNat 32 op.ctorIdx := by
    rcases h with rfl | ⟨hlen, hnodup⟩
    · rfl
    · have hidx : op.ctorIdx < (opcodeTable.take NUM_OPCODES).length := by
        rw [List.length_take]
        omega
      have hcell : (opcodeTable.take NUM_OPCODES)[op.ctorIdx] = opcodeCell opcodeTable op := by
        rw [List.getElem_take]
        unfold opcodeCell
        rw [List.getD_eq_getElem _ _ (by omega)]
      have hsome : (opcodeTable.take NUM_OPCODES).findIdx? (· == opcodeCell opcodeTable op) =
          some op.ctorIdx := by
        rw [List.findIdx?_eq_some_iff_getElem]
        refine ⟨hidx, beq_iff_eq.mpr hcell, ?_⟩
        intro j hj heq
        have hsame := (beq_iff_eq.mp heq).trans hcell.symm
        exact absurd (hnodup.getElem_inj_iff.mp hsame) (Nat.ne_of_lt hj)
      unfold findOpcode
      rw [hsome]
  unfold relocateOpcode
  rw [hfind]
  dsimp only
  rw [hsmall, if_pos hlt, OpcodeID.ofNat_ctorIdx]

theorem ctorIdx_ofNat : ∀ n < NUM_OPCODES, (OpcodeID.ofNat n).ctorIdx = n := by
  decide +kernel

/-- The cell of a relocated opcode is the one that stands for it. -/
theorem opcodeCell_relocated {cell : Word} {op : OpcodeID}
    (h : relocateOpcode opcodeTable cell = some op)
    (hcell : opcodeTable = [] ∨ cell ∈ opcodeTable.take NUM_OPCODES) :
    cell = opcodeCell opcodeTable op := by
  unfold relocateOpcode at h
  obtain ⟨hlt, h⟩ := Option.ite_none_right_eq_some.mp h
  have hidx : op.ctorIdx = (findOpcode (opcodeTable.take NUM_OPCODES) cell).toNat := by
    rw [← Option.some.inj h]
    exact ctorIdx_ofNat _ hlt
  unfold opcodeCell
  rw [hidx]
  rcases hcell with rfl | hmem
  · show cell = BitVec.ofNat 32 cell.toNat
    rw [BitVec.ofNat_toNat, BitVec.setWidth_eq]
  · obtain ⟨k, hk⟩ : ∃ k, (opcodeTable.take NUM_OPCODES).findIdx? (· == cell) = some k := by
      rw [← Option.isSome_iff_exists, List.findIdx?_isSome]
      exact List.any_eq_true.mpr ⟨cell, hmem, beq_self_eq_true cell⟩
    obtain ⟨hlen, hget, -⟩ := List.findIdx?_eq_some_iff_getElem.mp hk
    have hfind : findOpcode (opcodeTable.take NUM_OPCODES) cell = BitVec.ofNat 32 k := by
      unfold findOpcode
      rw [hk]
    have hmin := hlen
    rw [List.length_take] at hmin
    have hk' : (BitVec.ofNat 32 k).toNat = k := by
      rw [BitVec.toNat_ofNat]
      have h138 : NUM_OPCODES ≤ 2^32 := by decide
      omega
    rw [hfind, hk', List.getD_eq_getElem _ _ (by omega)]
    rw [List.getElem_take] at hget
    exact (beq_iff_eq.mp hget).symm

/-! ## one instruction -/

theorem readCells_add (m n : Nat) : readCells r address (m + n) =
    readCells r address m ++ readCells r (address + BitVec.ofNat 32 (4 * m)) n := by
  induction m generalizing address with
  | zero =>
    rw [Nat.zero_add, show address + BitVec.ofNat 32 (4 * 0) = address from BitVec.add_zero _]
    rfl
  | succ m ih =>
    rw [Nat.succ_add, readCells, ih, add_four_mul]
    rfl

theorem size_eq (opcodeTable : List Word) (i : Instruction) : i.size = 4 * (i.cells opcodeTable).length := by
  unfold Instruction.size Instruction.cells
  rw [List.length_cons, Nat.add_comm]

/-- **An instruction is decoded from its cells.** -/
theorem decode_cells (h : Distinct opcodeTable) (hwf : i.wellFormed = true)
    (hread : readCells r i.address (i.cells opcodeTable).length = i.cells opcodeTable) :
    decodeInstruction opcodeTable r i.address = some i := by
  unfold Instruction.cells at hread
  rw [List.length_cons, readCells, List.cons.injEq] at hread
  obtain ⟨hop, hops⟩ := hread
  unfold decodeInstruction
  rw [hop, relocate_opcodeCell h, Option.bind_some]
  unfold Instruction.wellFormed at hwf
  cases hkind : i.opcode.operandKind with
  | none =>
    rw [hkind] at hwf
    exact absurd hwf (by simp)
  | some kind =>
    rw [hkind] at hwf
    cases kind with
    | one =>
      rw [of_decide_eq_true hwf] at hops
      rw [hops]
    | zero =>
      rw [of_decide_eq_true hwf] at hops
      show some (⟨i.address, i.opcode, readCells r (i.address + 4) 0⟩ : Instruction) = some i
      rw [hops]
    | table =>
      obtain ⟨hpos, hmax, hlen⟩ := of_decide_eq_true hwf
      have hcount : r.codeCell (i.address + 4) = i.operand := by
        obtain ⟨count, records, hlist⟩ := List.exists_cons_of_length_pos hpos
        unfold Instruction.operand
        rw [hlist, List.length_cons, readCells, List.cons.injEq] at hops
        rw [hlist]
        exact hops.1
      dsimp only
      rw [hcount, ← hlen, if_pos hmax, hops]

/-! ## the whole code -/

theorem assemble_cons : assemble opcodeTable (i :: is) =
    i.cells opcodeTable ++ assemble opcodeTable is := List.flatMap_cons

theorem swept_assemble (h : Distinct opcodeTable) (hcod : 0 ≤ r.header.cod.toInt)
    (hwf : ∀ i ∈ is, i.wellFormed = true) (hcons : Consecutive address is) (h0 : 0 ≤ address.toInt)
    (hend : r.header.cod.toInt + address.toInt + 4 * (assemble opcodeTable is).length =
      r.header.dat.toInt)
    (hread : readCells r address (assemble opcodeTable is).length = assemble opcodeTable is) :
    Swept opcodeTable r address is := by
  induction is generalizing address with
  | nil =>
    have hlen : (assemble opcodeTable []).length = 0 := rfl
    rw [hlen] at hend
    show inCode r address = false
    rw [← Bool.not_eq_true, inCode_iff]
    omega
  | cons i is ih =>
    obtain ⟨rfl, hcons⟩ := hcons
    rw [assemble_cons, List.length_append] at hend hread
    rw [readCells_add] at hread
    obtain ⟨hfirst, hrest⟩ := List.append_inj hread (length_readCells r _ _)
    have hpos : 0 < (i.cells opcodeTable).length := Nat.succ_pos _
    have hdat := BitVec.toInt_lt (x := r.header.dat)
    have hsize := size_eq opcodeTable i
    have hnext : i.next.toInt = i.address.toInt + i.size := toInt_add_ofNat h0 (by omega)
    have hin : inCode r i.address = true := by
      rw [inCode_iff]
      omega
    refine ⟨hin, decode_cells h (hwf i (.head _)) hfirst, ?_⟩
    apply ih (fun j hj => hwf j (.tail _ hj)) hcons
    · omega
    · omega
    · unfold Instruction.next
      rw [hsize]
      exact hrest

/-- **The disassembler gets back what has been assembled**: a code section that holds the cells of
well-formed instructions, one behind the other, is decoded to these instructions, and both passes
count them. -/
theorem sweep_assemble (opcodeTable : List Word) (r : AmxRef) (is : List Instruction)
    (h : Distinct opcodeTable) (hwf : ∀ i ∈ is, i.wellFormed = true) (hcons : Consecutive 0 is)
    (hcod : 0 ≤ r.header.cod.toInt)
    (hdat : r.header.dat.toInt = r.header.cod.toInt + 4 * (assemble opcodeTable is).length)
    (hread : readCells r 0 (assemble opcodeTable is).length = assemble opcodeTable is) :
    sweep opcodeTable r (sweepFuel r) 0 = some is ∧
      Disassembler.count opcodeTable r (sweepFuel r) 0 = is.length := by
  have h0 : (0 : Word).toInt = 0 := rfl
  have hswept : Swept opcodeTable r 0 is :=
    swept_assemble h hcod hwf hcons (le_of_eq h0.symm) (by omega) hread
  have hsweep := sweep_of_swept hswept
  exact ⟨hsweep, count_eq_length hsweep⟩

/-- `PROC; SWITCH 12; CASETBL 1, 32, 5, 40; HALT 0; RETN` -/
def switchCode : List Instruction :=
  [⟨0, .proc, []⟩, ⟨4, .switch, [12]⟩, ⟨12, .casetbl, [1, 32, 5, 40]⟩, ⟨32, .halt, [0]⟩,
    ⟨40, .retn, []⟩]

/-- an opcode table as an interpreter with direct threading has it -/
def threadedTable : List Word :=
  (List.range NUM_OPCODES).map fun n => 0x08048000 + 16 * BitVec.ofNat 32 n

theorem sweep_assemble_sample : let r := AmxRef.ofCells (assemble threadedTable switchCode)
    sweep threadedTable r (sweepFuel r) 0 = some switchCode ∧
      Disassembler.count threadedTable r (sweepFuel r) 0 = switchCode.length := by
  intro r
  apply sweep_assemble threadedTable r switchCode
  · exact .inr (by decide +kernel)
  · decide
  · exact ⟨rfl, rfl, rfl, rfl, rfl, trivial⟩
  · decide
  · decide
  · decide +kernel

/-! ## back again -/

theorem decode_wellFormed (h : decodeInstruction opcodeTable r address = some i) :
    i.wellFormed = true ∨ i.opcode = .casetbl ∧ i.operands = [] := by
  obtain ⟨kind, hop, hkind, -⟩ := decodeInstruction_kind h
  unfold decodeInstruction at h
  rw [hop, Option.bind_some, hkind] at h
  unfold Instruction.wellFormed
  rw [hkind]
  cases kind with
  | one =>
    left
    rw [← Option.some.inj h]
    rfl
  | zero =>
    left
    rw [← Option.some.inj h]
    rfl
  | table =>
    dsimp only at h
    obtain ⟨hmax, h⟩ := Option.ite_none_right_eq_some.mp h
    have hops := (congrArg Instruction.operands (Option.some.inj h)).symm
    dsimp only at hops
    set n := tableOperands (r.codeCell (address + 4)) with hn
    cases hcases : n with
    | zero =>
      right
      rw [hcases] at hops
      refine ⟨?_, hops⟩
      cases hc : i.opcode <;> rw [hc] at hkind <;> first | rfl | exact absurd hkind (by decide)
    | succ m =>
      left
      have hlen : i.operands.length = n := by rw [hops, length_readCells]
      have hcount : i.operand = r.codeCell (address + 4) := by
        unfold Instruction.operand
        rw [hops, hcases]
        rfl
      apply decide_eq_true
      rw [hcount, ← hn]
      exact ⟨by omega, by omega, hlen⟩

theorem swept_consecutive (h : Swept opcodeTable r address is) : Consecutive address is := by
  induction is generalizing address with
  | nil => trivial
  | cons i is ih =>
    obtain ⟨-, hd, hs⟩ := h
    exact ⟨decodeInstruction_address hd, ih hs⟩

theorem swept_cells (h : Swept opcodeTable r address is)
    (hcell : opcodeTable = [] ∨ ∀ i ∈ is, r.codeCell i.address ∈ opcodeTable.take NUM_OPCODES) :
    readCells r address (assemble opcodeTable is).length = assemble opcodeTable is := by
  induction is generalizing address with
  | nil => rfl
  | cons i is ih =>
    obtain ⟨-, hd, hs⟩ := h
    obtain ⟨hop, rfl, n, hops, -⟩ := decodeInstruction_cases hd
    have hfirst : readCells r i.address (i.cells opcodeTable).length = i.cells opcodeTable := by
      unfold Instruction.cells
      rw [List.length_cons, readCells, hops, length_readCells,
        ← opcodeCell_relocated hop (hcell.imp_right fun h => h i (.head _))]
    have hnext : i.address + BitVec.ofNat 32 (4 * (i.cells opcodeTable).length) = i.next := by
      rw [← size_eq opcodeTable]
      rfl
    rw [assemble_cons, List.length_append, readCells_add, hfirst, hnext,
      ih hs (hcell.imp_right fun h j hj => h j (.tail _ hj))]

theorem swept_covers (h : Swept opcodeTable r address is) (hcod : 0 ≤ r.header.cod.toInt)
    (h0 : 0 ≤ address.toInt) : r.header.dat.toInt ≤
      r.header.cod.toInt + address.toInt + 4 * (assemble opcodeTable is).length := by
  induction is generalizing address with
  | nil =>
    have hout : ¬ (0 ≤ address.toInt ∧ r.header.cod.toInt + address.toInt < r.header.dat.toInt) := by
      rw [← inCode_iff, Bool.not_eq_true]
      exact h
    have hlen : (assemble opcodeTable []).length = 0 := rfl
    rw [hlen]
    omega
  | cons i is ih =>
    obtain ⟨hin, hd, hs⟩ := h
    obtain rfl := decodeInstruction_address hd
    have hdat := BitVec.toInt_lt (x := r.header.dat)
    have hsize := size_eq opcodeTable i
    rw [assemble_cons, List.length_append]
    by_cases hfits : i.address.toInt + i.size < 2^31
    · have hnext : i.next.toInt = i.address.toInt + i.size := toInt_add_ofNat h0 hfits
      have := ih hs (by omega)
      omega
    · omega

/-- **Assembling what the disassembler has found gives back the code cells**, from the start of the
code section to its end.  The instructions are well formed, but for a CASETBL without operands, and
they follow one another.  In builds with relocation the opcode cells must be relocated ones. -/
theorem assemble_sweep (opcodeTable : List Word) (r : AmxRef) (fuel : Nat) (is : List Instruction)
    (h : sweep opcodeTable r fuel 0 = some is) (hcod : 0 ≤ r.header.cod.toInt)
    (hcell : opcodeTable = [] ∨ ∀ i ∈ is, r.codeCell i.address ∈ opcodeTable.take NUM_OPCODES) :
    readCells r 0 (assemble opcodeTable is).length = assemble opcodeTable is ∧
      r.header.dat.toInt ≤ r.header.cod.toInt + 4 * (assemble opcodeTable is).length ∧
      Consecutive 0 is ∧ ∀ i ∈ is, i.wellFormed = true ∨ i.opcode = .casetbl ∧ i.operands = [] := by
  have hswept := sweep_swept h
  have h0 : (0 : Word).toInt = 0 := rfl
  have hcovers := swept_covers hswept hcod (le_of_eq h0.symm)
  refine ⟨swept_cells hswept hcell, by omega, swept_consecutive hswept, ?_⟩
  intro i hi
  exact decode_wellFormed (hswept.mem hi).2

theorem assemble_sweep_sample : let r := AmxRef.ofCells (assemble [] switchCode)
    readCells r 0 11 = assemble [] switchCode := by
  intro r
  have h : sweep [] r (sweepFuel r) 0 = some switchCode := by decide +kernel
  exact (assemble_sweep [] r _ switchCode h (by decide) (.inl rfl)).1

end

end AmxJit
