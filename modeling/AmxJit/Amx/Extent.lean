import AmxJit.Amx.Sweep

/-!
# The cells an instruction takes

* `decodeReads`         the code addresses that `DecodeInstruction` reads from;
* `decodeInstruction_congr`   other cells do not matter to it;
* `cellsNeeded`         how many cells that are, by the operand kind and the record count;
* `decode_inside_iff`   they lie in the code section exactly if the section is long enough.
-/

namespace AmxJit
open X86

/-- the addresses of `n` cells from `address` on -/
def cellAddresses (address : Word) : Nat → List Word
  | 0 => []
  | n + 1 => address :: cellAddresses (address + 4) n

/-- The code addresses that `DecodeInstruction` reads from; the count of a CASETBL is read before its
operands. -/
def decodeReads (opcodeTable : List Word) (r : AmxRef) (address : Word) : List Word :=
  address ::
    match (relocateOpcode opcodeTable (r.codeCell address)).bind OpcodeID.operandKind with
    | some .one => cellAddresses (address + 4) 1
    | some .zero => []
    | some .table =>
      (address + 4) :: cellAddresses (address + 4) (tableOperands (r.codeCell (address + 4)))
    | none => []

/-- the cells of an instruction whose second cell is `count` -/
def cellsNeeded (count : Word) : OperandKind → Nat
  | .one => 2
  | .zero => 1
  | .table => max 2 (1 + tableOperands count)

/-- the cells of the instruction at a code address -/
def extent (opcodeTable : List Word) (r : AmxRef) (address : Word) : Nat :=
  match (relocateOpcode opcodeTable (r.codeCell address)).bind OpcodeID.operandKind with
  | some kind => cellsNeeded (r.codeCell (address + 4)) kind
  | none => 1

/-- the cell at a code address lies in `[cod, dat)` -/
def InSection (r : AmxRef) (a : Word) : Prop :=
  0 ≤ a.toInt ∧ r.header.cod.toInt + a.toInt + 4 ≤ r.header.dat.toInt

section
variable {opcodeTable : List Word} {r r' : AmxRef} {address a : Word} {n : Nat}

theorem readCells_eq (address : Word) (n : Nat) :
    readCells r address n = (cellAddresses address n).map r.codeCell := by
  induction n generalizing address with
  | zero => rfl
  | succ n ih => rw [readCells, cellAddresses, List.map_cons, ih]

theorem readCells_congr (h : ∀ a ∈ cellAddresses address n, r'.codeCell a = r.codeCell a) :
    readCells r' address n = readCells r address n := by
  rw [readCells_eq, readCells_eq]
  exact List.map_congr_left h

theorem mem_cellAddresses :
    a ∈ cellAddresses address n ↔ ∃ j < n, a = address + BitVec.ofNat 32 (4 * j) := by
  induction n generalizing address with
  | zero => simp [cellAddresses]
  | succ n ih =>
    rw [cellAddresses, List.mem_cons, ih]
    constructor
    · intro h
      rcases h with h | ⟨j, hj, h⟩
      · exact ⟨0, by omega, h.trans (BitVec.add_zero address).symm⟩
      · exact ⟨j + 1, by omega, h.trans (add_four_mul address j)⟩
    · intro h
      obtain ⟨j, hj, h⟩ := h
      cases j with
      | zero => exact .inl (h.trans (BitVec.add_zero address))
      | succ j => exact .inr ⟨j, by omega, h.trans (add_four_mul address j).symm⟩

/-- What `DecodeInstruction` returns depends on the cells it reads alone. -/
theorem decodeInstruction_congr
    (h : ∀ a ∈ decodeReads opcodeTable r address, r'.codeCell a = r.codeCell a) :
    decodeInstruction opcodeTable r' address = decodeInstruction opcodeTable r address := by
  unfold decodeReads at h
  rw [List.forall_mem_cons] at h
  obtain ⟨hop, h⟩ := h
  unfold decodeInstruction
  rw [hop]
  cases hr : relocateOpcode opcodeTable (r.codeCell address) with
  | none => rw [Option.bind_none, Option.bind_none]
  | some op =>
    rw [hr, Option.bind_some] at h
    simp only [Option.bind_some]
    cases hk : op.operandKind with
    | none => rfl
    | some kind =>
      rw [hk] at h
      cases kind with
      | one => simp only [readCells_congr h]
      | zero => rfl
      | table =>
        rw [List.forall_mem_cons] at h
        simp only [h.1, readCells_congr h.2]

/-! ## the section -/

/-- the cells that are read, counted from the opcode -/
theorem mem_decodeReads {op : OpcodeID} {kind : OperandKind}
    (hop : relocateOpcode opcodeTable (r.codeCell address) = some op)
    (hkind : op.operandKind = some kind) : a ∈ decodeReads opcodeTable r address ↔
      ∃ j < cellsNeeded (r.codeCell (address + 4)) kind, a = address + BitVec.ofNat 32 (4 * j) := by
  rw [← mem_cellAddresses]
  unfold decodeReads
  rw [hop, Option.bind_some, hkind]
  cases kind with
  | one => exact Iff.rfl
  | zero => exact Iff.rfl
  | table =>
    show a ∈ address :: (address + 4) :: cellAddresses (address + 4) _ ↔ _
    unfold cellsNeeded
    generalize tableOperands (r.codeCell (address + 4)) = n
    cases n with
    | zero => exact Iff.rfl
    | succ n =>
      rw [show max 2 (1 + (n + 1)) = n + 1 + 1 by omega]
      show a ∈ address :: (address + 4) :: (address + 4) :: _ ↔ a ∈ address :: (address + 4) :: _
      simp only [List.mem_cons, or_self_left]

theorem cellsNeeded_pos (count : Word) (kind : OperandKind) : 0 < cellsNeeded count kind := by
  cases kind with
  | one => exact Nat.succ_pos 1
  | zero => exact Nat.one_pos
  | table => exact lt_of_lt_of_le Nat.two_pos (le_max_left _ _)

/-- an address in the section, as a number -/
theorem toInt_add_ofNat {m : Nat} (h0 : 0 ≤ a.toInt) (h : a.toInt + m < 2^31) :
    (a + BitVec.ofNat 32 m).toInt = a.toInt + m := by
  rw [BitVec.toInt_eq_toNat_cond] at h0 h ⊢
  rw [BitVec.toInt_eq_toNat_cond, BitVec.toNat_add, BitVec.toNat_ofNat]
  have hlt := a.isLt
  split at h0 <;> split at h <;> split <;> omega

/-- `k` cells from an address in the section on -/
theorem inSection_iff {k : Nat} (hcod : 0 ≤ r.header.cod.toInt) (hin : inCode r address = true)
    (hk : 0 < k) :
    (∀ j < k, InSection r (address + BitVec.ofNat 32 (4 * j))) ↔
      r.header.cod.toInt + address.toInt + 4 * k ≤ r.header.dat.toInt := by
  obtain ⟨h0, h1⟩ := (inCode_iff address).mp hin
  have hdat := BitVec.toInt_lt (x := r.header.dat)
  constructor
  · intro h
    induction k with
    | zero => exact absurd hk (lt_irrefl 0)
    | succ k ih =>
      have hlast : r.header.cod.toInt + address.toInt + 4 * k ≤ r.header.dat.toInt := by
        cases k with
        | zero => omega
        | succ k => exact ih (Nat.succ_pos k) fun j hj => h j (by omega)
      obtain ⟨-, hsec⟩ := h k (Nat.lt_succ_self k)
      rw [toInt_add_ofNat h0 (by omega)] at hsec
      omega
  · intro h j hj
    unfold InSection
    rw [toInt_add_ofNat h0 (by omega)]
    omega

/-- the operands of a decoded instruction -/
theorem decodeInstruction_kind {i : Instruction} (h : decodeInstruction opcodeTable r address = some i) :
    ∃ kind, relocateOpcode opcodeTable (r.codeCell address) = some i.opcode ∧
      i.opcode.operandKind = some kind ∧
      1 + i.operands.length ≤ cellsNeeded (r.codeCell (address + 4)) kind := by
  obtain ⟨hop, -, -⟩ := decodeInstruction_cases h
  unfold decodeInstruction at h
  rw [hop, Option.bind_some] at h
  have hops {l : List Word} (hi : some ⟨address, i.opcode, l⟩ = some i) : i.operands = l :=
    (congrArg Instruction.operands (Option.some.inj hi)).symm
  split at h
  · rename_i hk
    rw [hops h]
    exact ⟨_, hop, hk, le_refl 2⟩
  · rename_i hk
    rw [hops h]
    exact ⟨_, hop, hk, le_refl 1⟩
  · rename_i hk
    dsimp only at h
    split at h
    · rw [hops h, length_readCells]
      exact ⟨_, hop, hk, le_max_right _ _⟩
    · exact absurd h (by simp)
  · exact absurd h (by simp)

theorem decode_cases {cur next : Word} {i : Instruction}
    (h : Disassembler.decode opcodeTable r cur = some (i, next) ∨
      ∃ e, (Disassembler.decodeE opcodeTable r cur e).1 = some (i, next)) :
    inCode r cur = true ∧ decodeInstruction opcodeTable r cur = some i ∧ next = i.next := by
  have hdecode (hd : Disassembler.decode opcodeTable r cur = some (i, next)) :
      inCode r cur = true ∧ decodeInstruction opcodeTable r cur = some i ∧ next = i.next := by
    by_cases hin : inCode r cur = true
    · rw [decode_eq hin] at hd
      obtain ⟨j, hj, he⟩ := Option.map_eq_some_iff.mp hd
      cases he
      exact ⟨hin, hj, rfl⟩
    · unfold Disassembler.decode at hd
      rw [if_neg hin] at hd
      exact absurd hd (by simp)
  rcases h with h | ⟨e, h⟩
  · exact hdecode h
  · refine hdecode ?_
    rw [← h]
    unfold Disassembler.decode Disassembler.decodeE
    split
    · cases decodeInstruction opcodeTable r cur <;> rfl
    · rfl

/-- **A decoded instruction lies in the code section exactly if the section is long enough for its
operands**: the disassembler checks its first byte only. -/
theorem decode_inside_iff (opcodeTable : List Word) (r : AmxRef) (cur next : Word) (i : Instruction)
    (hcod : 0 ≤ r.header.cod.toInt) (hdat : r.header.cod.toInt ≤ r.header.dat.toInt)
    (h : Disassembler.decode opcodeTable r cur = some (i, next) ∨
      ∃ e, (Disassembler.decodeE opcodeTable r cur e).1 = some (i, next)) :
    ((∀ a ∈ decodeReads opcodeTable r cur, InSection r a) ∧
        next.toInt ≤ r.header.dat.toInt - r.header.cod.toInt) ↔
      r.header.cod.toInt + cur.toInt + 4 * extent opcodeTable r cur ≤ r.header.dat.toInt := by
  obtain ⟨hin, hd, rfl⟩ := decode_cases h
  obtain ⟨kind, hop, hkind, hlen⟩ := decodeInstruction_kind hd
  have hextent : extent opcodeTable r cur = cellsNeeded (r.codeCell (cur + 4)) kind := by
    unfold extent
    rw [hop, Option.bind_some, hkind]
  have hreads : (∀ a ∈ decodeReads opcodeTable r cur, InSection r a) ↔
      r.header.cod.toInt + cur.toInt + 4 * extent opcodeTable r cur ≤ r.header.dat.toInt := by
    rw [hextent, ← inSection_iff hcod hin (cellsNeeded_pos _ kind)]
    constructor
    · intro h j hj
      exact h _ ((mem_decodeReads hop hkind).mpr ⟨j, hj, rfl⟩)
    · intro h a ha
      obtain ⟨j, hj, rfl⟩ := (mem_decodeReads hop hkind).mp ha
      exact h j hj
  rw [hreads]
  refine and_iff_left_of_imp fun hfits => ?_
  have h0 := ((inCode_iff cur).mp hin).1
  have hlt := BitVec.toInt_lt (x := r.header.dat)
  have hsize : i.size ≤ 4 * extent opcodeTable r cur := by
    rw [hextent]
    unfold Instruction.size
    omega
  unfold Instruction.next
  rw [decodeInstruction_address hd, toInt_add_ofNat h0 (by omega)]
  omega

end

/-- A code section of one cell, `HALT`: the operand is read behind it. -/
theorem decode_outside : let r := { AmxRef.ofCells [120] with header.dat := 4 }
    ∃ i next, Disassembler.decode [] r 0 = some (i, next) ∧ 4 ∈ decodeReads [] r 0 ∧
      ¬ InSection r 4 ∧ ¬ next.toInt ≤ r.header.dat.toInt - r.header.cod.toInt := by
  refine ⟨⟨0, .halt, [0]⟩, 8, by decide, by decide, ?_, by decide⟩
  unfold InSection
  decide

/-- `NOP` fits. -/
theorem decode_inside_nop : let r := AmxRef.ofCells [134]
    ∀ a ∈ decodeReads [] r 0, InSection r a := by
  intro r
  refine ((decode_inside_iff [] r 0 4 ⟨0, .nop, []⟩ (by decide) (by decide) (.inl (by decide))).mpr ?_).1
  decide

end AmxJit
