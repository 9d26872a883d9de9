import AmxJit.Amx.Extent
import AmxJit.Compiler.Compile

/-!
# The two readers of a case table

A CASETBL is decoded as an instruction, and read again as a `CaseTable` by the SWITCH in front of it.

* `switchAccesses`       the records that `OP_SWITCH` accesses;
* `emitSwitch_isSome`    its code comes out exactly if they exist;
* `TablesAgree`          the operands of the CASETBL are the records of the table;
* `case_tables_iff`      the two agree and all accesses are in range exactly for a count that is
                         not negative and whose operands are fewer than 2^31.
-/

namespace AmxJit
open X86

/-! ## the accesses -/

namespace CaseTable

/-- the case records: all but record 0 -/
def caseRecords (records : List CaseRecord) : List Nat :=
  (List.range (numCases records).toNat).map (· + 1)

/-- The records that `OP_SWITCH` accesses: the cases for the least and the greatest value, record 0
for the default address of the range check, the cases again, and record 0. -/
def switchAccesses (records : List CaseRecord) : List Nat :=
  (if 0 < numCases records then
    caseRecords records ++ caseRecords records ++ [0, 0] ++ caseRecords records
  else []) ++ [0]

theorem switchAccesses_iff {records : List CaseRecord} :
    (∀ k ∈ switchAccesses records, k < records.length) ↔ records ≠ [] := by
  have hlen : records ≠ [] ↔ 0 < records.length := List.length_pos_iff.symm
  rw [hlen]
  constructor
  · intro h
    exact h 0 (List.mem_append_right _ (List.mem_singleton.mpr rfl))
  · intro h k hk
    have hcases (hk : k ∈ caseRecords records) : k < records.length := by
      obtain ⟨j, hj, rfl⟩ := List.mem_map.mp hk
      have hj' := List.mem_range.mp hj
      unfold numCases at hj'
      omega
    rcases List.mem_append.mp hk with hk | hk
    · split at hk
      · simp only [List.mem_append, List.mem_cons, List.not_mem_nil, or_false] at hk
        rcases hk with ((hk | hk) | (rfl | rfl)) | hk
        · exact hcases hk
        · exact hcases hk
        · exact h
        · exact h
        · exact hcases hk
      · exact absurd hk List.not_mem_nil
    · rwa [List.mem_singleton.mp hk]

/-- the code of SWITCH comes out exactly if the records that it accesses exist -/
theorem emitSwitch_isSome {records : List CaseRecord} :
    (emitSwitch records).isSome = true ↔ ∀ k ∈ switchAccesses records, k < records.length := by
  rw [switchAccesses_iff]
  cases records with
  | nil => simp [emitSwitch, getDefaultAddress]
  | cons c cs => simp [emitSwitch, getDefaultAddress]

end CaseTable

/-! ## the readers -/

section
variable {opcodeTable : List Word} {r : AmxRef} {c : Word} {i : Instruction}

/-- The records of the table at `table` are the operands of the CASETBL: record 0 has the count and
the default target, and addresses are relative to the code. -/
def TablesAgree (r : AmxRef) (table : Word) (count : Nat) (operands : List Word) : Prop :=
  ∃ (default : Word) (cases : List Word) (records : List CaseRecord),
    operands = BitVec.ofNat 32 count :: default :: cases ∧ cases.length = 2 * count ∧
      caseTable r table = some records ∧ CaseTable.numCases records = count ∧
      CaseTable.getDefaultAddress records = some (default - r.code) ∧
      ∀ k < count, CaseTable.getCaseValue records k = cases[2 * k]? ∧
        CaseTable.getCaseAddress records k = cases[2 * k + 1]?.map (· - r.code)

theorem readRecords_length (table : Word) (n : Nat) (k : Word) :
    (readRecords r table n k).length = n := by
  induction n generalizing k with
  | zero => rfl
  | succ n ih => rw [readRecords, List.length_cons, ih]

/-- the records from record `k` on, and the cells from there -/
theorem readRecords_get {a : Word} {n : Nat} (k j : Nat) (hj : j < n) :
    (readRecords r (r.code + a) n (BitVec.ofNat 32 k))[j]? =
      some ⟨r.codeCell (a + BitVec.ofNat 32 (8 * (k + j))),
        r.codeCell (a + BitVec.ofNat 32 (8 * (k + j) + 4)) - r.code⟩ := by
  induction n generalizing k j with
  | zero => exact absurd hj (Nat.not_lt_zero j)
  | succ n ih =>
    have hnext : BitVec.ofNat 32 k + 1 = BitVec.ofNat 32 (k + 1) := (BitVec.ofNat_add k 1).symm
    rw [readRecords, hnext]
    cases j with
    | zero =>
      have h8 : (8 : Word) * BitVec.ofNat 32 k = BitVec.ofNat 32 (8 * k) := (BitVec.ofNat_mul 8 k).symm
      have h4 : BitVec.ofNat 32 (8 * k + 4) = BitVec.ofNat 32 (8 * k) + 4 := BitVec.ofNat_add _ 4
      rw [List.getElem?_cons_zero, h8, Nat.add_zero, h4]
      unfold AmxRef.codeCell
      rw [add_assoc, add_assoc, add_assoc]
    | succ j =>
      rw [List.getElem?_cons_succ, ih (k + 1) j (by omega), Nat.add_right_comm k 1 j]
      rfl

theorem readCells_get (a : Word) {n j : Nat} (hj : j < n) :
    (readCells r a n)[j]? = some (r.codeCell (a + BitVec.ofNat 32 (4 * j))) := by
  induction n generalizing a j with
  | zero => exact absurd hj (Nat.not_lt_zero j)
  | succ n ih =>
    rw [readCells]
    cases j with
    | zero =>
      rw [List.getElem?_cons_zero, Nat.mul_zero]
      exact congrArg (some ∘ r.codeCell) (BitVec.add_zero a).symm
    | succ j =>
      rw [List.getElem?_cons_succ, ih (a + 4) (by omega), add_four_mul]

/-- the operands of a CASETBL -/
theorem decode_table (hd : decodeInstruction opcodeTable r c = some i) (hop : i.opcode = .casetbl) :
    let n := tableOperands (r.codeCell (c + 4))
    i.operands = readCells r (c + 4) n ∧ n < VECTOR_MAX := by
  obtain ⟨hrel, -, -⟩ := decodeInstruction_cases hd
  unfold decodeInstruction at hd
  rw [hrel, Option.bind_some, hop] at hd
  have hd' : (if tableOperands (r.codeCell (c + 4)) < VECTOR_MAX then
      some ⟨c, .casetbl, readCells r (c + 4) (tableOperands (r.codeCell (c + 4)))⟩
    else none : Option Instruction) = some i := hd
  split at hd'
  · rename_i hn
    exact ⟨(congrArg Instruction.operands (Option.some.inj hd')).symm, hn⟩
  · exact absurd hd' (by simp)

theorem caseTable_eq : caseTable r (r.code + c) =
    if 2 * ((r.codeCell (c + 4)).toInt + 1).toNat < VECTOR_MAX then
      some (readRecords r (r.code + (c + 4)) ((r.codeCell (c + 4)).toInt + 1).toNat 0)
    else none := by
  unfold caseTable AmxRef.codeCell
  rw [add_assoc]

/-- the table of a CASETBL with `n` cases -/
theorem tables_agree {n : Nat} (hn : r.codeCell (c + 4) = BitVec.ofNat 32 n)
    (hmax : 2 * (n + 1) < VECTOR_MAX) :
    TablesAgree r (r.code + c) n (readCells r (c + 4) (2 * (n + 1))) := by
  have hint : (r.codeCell (c + 4)).toInt = n := by
    unfold VECTOR_MAX at hmax
    rw [hn, BitVec.toInt_eq_toNat_of_lt, BitVec.toNat_ofNat, Nat.mod_eq_of_lt (by omega)]
    rw [BitVec.toNat_ofNat]
    omega
  have hnat : ((r.codeCell (c + 4)).toInt + 1).toNat = n + 1 := by omega
  have hrecord (j : Nat) (hj : j < n + 1) :
      (readRecords r (r.code + (c + 4)) (n + 1) 0)[j]? =
        some ⟨r.codeCell (c + 4 + BitVec.ofNat 32 (8 * (0 + j))),
          r.codeCell (c + 4 + BitVec.ofNat 32 (8 * (0 + j) + 4)) - r.code⟩ :=
    readRecords_get 0 j hj
  have htwo (j : Nat) : 8 * (0 + j) = 4 * (2 * j) ∧ 8 * (0 + j) + 4 = 4 * (2 * j + 1) := by omega
  refine ⟨r.codeCell (c + 4 + 4), readCells r (c + 4 + 4 + 4) (2 * n),
    readRecords r (r.code + (c + 4)) (n + 1) 0, ?_, length_readCells _ _ _, ?_, ?_, ?_, ?_⟩
  · rw [← hn]
    rfl
  · rw [caseTable_eq, hnat, if_pos hmax]
  · unfold CaseTable.numCases
    rw [readRecords_length]
    omega
  · unfold CaseTable.getDefaultAddress
    rw [hrecord 0 (Nat.succ_pos n)]
    rfl
  · intro k hk
    obtain ⟨h1, h2⟩ := htwo (k + 1)
    have hat (m : Nat) : c + 4 + 4 + 4 + BitVec.ofNat 32 (4 * m) =
        c + 4 + BitVec.ofNat 32 (4 * (m + 2)) := by
      rw [add_four_mul, add_four_mul]
    unfold CaseTable.getCaseValue CaseTable.getCaseAddress
    rw [hrecord (k + 1) (by omega), readCells_get _ (by omega), readCells_get _ (by omega), hat, hat,
      h2, h1]
    exact ⟨rfl, rfl⟩

/-- the product does not overflow -/
theorem tableOperands_eq {count : Word} (h : 2 * (count.toNat + 1) < 2^31) :
    tableOperands count = 2 * (count.toNat + 1) := by
  have hnat : ((count + 1) * 2).toNat = 2 * (count.toNat + 1) := by
    have h1 : (1 : Word).toNat = 1 := rfl
    have h2 : (2 : Word).toNat = 2 := rfl
    rw [BitVec.toNat_mul, BitVec.toNat_add, h1, h2, Nat.mod_eq_of_lt (b := 2^32) (by omega),
      Nat.mod_eq_of_lt (by omega), Nat.mul_comm]
  unfold tableOperands
  rw [BitVec.toInt_eq_toNat_of_lt (by omega), hnat]
  rfl

/-- the product overflows: no operand is decoded -/
theorem tableOperands_zero {count : Word} (h0 : 0 ≤ count.toInt)
    (h : 2^31 ≤ 2 * (count.toNat + 1)) : tableOperands count = 0 := by
  have hlt : count.toNat < 2^31 := by
    rw [BitVec.toInt_eq_toNat_cond] at h0
    split at h0 <;> omega
  have h1 : (1 : Word).toNat = 1 := rfl
  have h2 : (2 : Word).toNat = 2 := rfl
  unfold tableOperands
  rw [BitVec.toInt_eq_toNat_cond, BitVec.toNat_mul, BitVec.toNat_add, h1, h2,
    Nat.mod_eq_of_lt (a := count.toNat + 1) (by omega)]
  split <;> omega

/-- **The two readers of a case table agree, and no access is out of range, exactly if the record
count is not negative** and `DecodeInstruction` does not overflow in the number of operands. -/
theorem case_tables_iff (opcodeTable : List Word) (r : AmxRef) (c : Word) (i : Instruction)
    (hd : decodeInstruction opcodeTable r c = some i) (hop : i.opcode = .casetbl) :
    let count := r.codeCell (c + 4)
    ((0 ≤ count.toInt → TablesAgree r (r.code + c) count.toNat i.operands) ∧
        ∀ records, caseTable r (r.code + c) = some records →
          ∀ k ∈ CaseTable.switchAccesses records, k < records.length) ↔
      0 ≤ count.toInt ∧ 2 * (count.toNat + 1) < 2^31 := by
  intro count
  obtain ⟨hops, hmax⟩ := decode_table hd hop
  constructor
  · rintro ⟨hagree, haccess⟩
    have h0 : 0 ≤ count.toInt := by
      by_contra hneg
      have hnat : ((r.codeCell (c + 4)).toInt + 1).toNat = 0 := by
        have hneg' : ¬ 0 ≤ (r.codeCell (c + 4)).toInt := hneg
        omega
      have hempty : caseTable r (r.code + c) = some [] := by
        rw [caseTable_eq, hnat, if_pos (by decide)]
        rfl
      exact CaseTable.switchAccesses_iff.mp (haccess [] hempty) rfl
    refine ⟨h0, ?_⟩
    by_contra hover
    obtain ⟨default, cases, records, hcells, -⟩ := hagree h0
    have hnone : tableOperands (r.codeCell (c + 4)) = 0 := tableOperands_zero h0 (Nat.le_of_not_lt hover)
    rw [hops, hnone] at hcells
    exact absurd hcells (by simp [readCells])
  · rintro ⟨h0, hlt⟩
    have hoperands : tableOperands (r.codeCell (c + 4)) = 2 * (count.toNat + 1) :=
      tableOperands_eq hlt
    rw [hoperands] at hmax hops
    have hagree := tables_agree (r := r) (c := c) (n := count.toNat)
      (by rw [BitVec.ofNat_toNat, BitVec.setWidth_eq]) hmax
    rw [hops]
    refine ⟨fun _ => hagree, fun records hrec => CaseTable.switchAccesses_iff.mpr fun hempty => ?_⟩
    obtain ⟨_, _, records', -, -, hrec', hnum, -⟩ := hagree
    rw [hrec] at hrec'
    cases hrec'
    rw [hempty] at hnum
    unfold CaseTable.numCases at hnum
    simp only [List.length_nil] at hnum
    omega

end

/-- The count -1: `CaseTable` has no record, and SWITCH reads the default address from record 0. -/
theorem case_table_empty : let r := AmxRef.ofCells [130, -1]
    decodeInstruction [] r 0 = some ⟨0, .casetbl, []⟩ ∧ caseTable r 0 = some [] ∧
      0 ∈ CaseTable.switchAccesses [] ∧ ¬ 0 < ([] : List CaseRecord).length := by
  decide

/-- a CASETBL with one case -/
theorem case_table_one : let r := AmxRef.ofCells [130, 1, 8, 5, 0]
    TablesAgree r (r.code + 0) (r.codeCell (0 + 4)).toNat [1, 8, 5, 0] := by
  intro r
  have h := (case_tables_iff [] r 0 ⟨0, .casetbl, [1, 8, 5, 0]⟩ (by decide) rfl).mpr
    ⟨by decide, by decide⟩
  exact h.1 (by decide)

end AmxJit
