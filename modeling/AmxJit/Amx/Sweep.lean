import AmxJit.Amx.Disasm

/-!
# A disassembly pass over the whole code

* `Swept cur is`        `is` are the instructions decoded one behind the other from `cur` to the
                        end of the code;
* `sweep_swept`         what `sweep` returns is swept;
* `sweep_none`          it returns nothing only where a decoding error is met, so the fuel suffices;
* `count_eq_length`     the counting pass with the other overload agrees;
* `Swept.increasing`    addresses increase strictly, as signed numbers.
-/

namespace AmxJit
open X86

variable (opcodeTable : List Word) (r : AmxRef)

def Swept : Word → List Instruction → Prop
  | cur, [] => inCode r cur = false
  | cur, i :: is =>
    inCode r cur = true ∧ decodeInstruction opcodeTable r cur = some i ∧ Swept i.next is

section
variable {opcodeTable : List Word} {r : AmxRef}

/-! ## one instruction -/

theorem decodeInstruction_cases {address : Word} {i : Instruction}
    (h : decodeInstruction opcodeTable r address = some i) :
    relocateOpcode opcodeTable (r.codeCell address) = some i.opcode ∧ i.address = address ∧
      ∃ n, i.operands = readCells r (address + 4) n ∧ n < VECTOR_MAX := by
  unfold decodeInstruction at h
  obtain ⟨op, hop, h⟩ := Option.bind_eq_some_iff.mp h
  have h1 : 1 < VECTOR_MAX := by decide
  have h0 : 0 < VECTOR_MAX := by decide
  split at h
  · cases h
    exact ⟨hop, rfl, 1, rfl, h1⟩
  · cases h
    exact ⟨hop, rfl, 0, rfl, h0⟩
  · dsimp only at h
    split at h
    · cases h
      exact ⟨hop, rfl, _, rfl, by assumption⟩
    · exact absurd h (by simp)
  · exact absurd h (by simp)

theorem decodeInstruction_address {address : Word} {i : Instruction}
    (h : decodeInstruction opcodeTable r address = some i) : i.address = address :=
  (decodeInstruction_cases h).2.1

theorem decodeInstruction_size {address : Word} {i : Instruction}
    (h : decodeInstruction opcodeTable r address = some i) : 4 ≤ i.size ∧ i.size ≤ 2^31 := by
  obtain ⟨-, -, n, hn, hlt⟩ := decodeInstruction_cases h
  unfold VECTOR_MAX at hlt
  unfold Instruction.size
  rw [hn, length_readCells]
  omega

theorem inCode_iff (cur : Word) :
    inCode r cur = true ↔ 0 ≤ cur.toInt ∧ r.header.cod.toInt + cur.toInt < r.header.dat.toInt := by
  unfold inCode
  rw [Bool.and_eq_true, decide_eq_true_iff, decide_eq_true_iff]

/-- the next address lies ahead, unless it has left the code -/
theorem lt_next {address : Word} {i : Instruction}
    (h : decodeInstruction opcodeTable r address = some i) (hin : inCode r address = true)
    (hnext : inCode r i.next = true) : address.toInt + 4 ≤ i.next.toInt := by
  obtain ⟨h1, h2⟩ := decodeInstruction_size h
  obtain ⟨ha, -⟩ := (inCode_iff address).mp hin
  obtain ⟨hn, -⟩ := (inCode_iff i.next).mp hnext
  have hlt := address.isLt
  have hnat : i.next.toNat = address.toNat + i.size := by
    have e : i.next = address + BitVec.ofNat 32 i.size := by
      rw [Instruction.next, decodeInstruction_address h]
    have hm : address.toNat < 2^31 := by
      rw [BitVec.toInt_eq_toNat_cond] at ha
      split at ha <;> omega
    rw [e, BitVec.toNat_add, BitVec.toNat_ofNat]
    omega
  rw [BitVec.toInt_eq_toNat_cond] at ha hn ⊢
  rw [BitVec.toInt_eq_toNat_cond]
  split at ha <;> split at hn <;> grind

theorem decode_eq {cur : Word} (h : inCode r cur = true) :
    Disassembler.decode opcodeTable r cur =
      (decodeInstruction opcodeTable r cur).map fun i => (i, i.next) := by
  unfold Disassembler.decode
  rw [if_pos h]
  cases hd : decodeInstruction opcodeTable r cur with
  | none => rfl
  | some i =>
    show some (i, cur + BitVec.ofNat 32 i.size) = some (i, i.next)
    rw [Instruction.next, decodeInstruction_address hd]

theorem decodeE_some {cur : Word} {i : Instruction} (e : Bool) (h : inCode r cur = true)
    (hd : decodeInstruction opcodeTable r cur = some i) :
    Disassembler.decodeE opcodeTable r cur e = (some (i, i.next), false) := by
  unfold Disassembler.decodeE
  rw [if_pos h, hd, Instruction.next, decodeInstruction_address hd]

/-! ## the passes -/

theorem sweep_swept {fuel : Nat} {cur : Word} {is : List Instruction}
    (h : sweep opcodeTable r fuel cur = some is) : Swept opcodeTable r cur is := by
  induction fuel generalizing cur is with
  | zero => exact absurd h (by simp [sweep])
  | succ fuel ih =>
    unfold sweep at h
    by_cases hin : inCode r cur = true
    · cases hd : decodeInstruction opcodeTable r cur with
      | none => simp [Disassembler.decodeE, hin, hd] at h
      | some i =>
        rw [decodeE_some false hin hd] at h
        obtain ⟨is', his, rfl⟩ := Option.map_eq_some_iff.mp h
        exact ⟨hin, hd, ih his⟩
    · simp [Disassembler.decodeE, hin] at h
      subst h
      exact Bool.eq_false_iff.mpr hin

/-- **The two passes agree**: the first overload counts what the second one decodes. -/
theorem count_eq_length {fuel : Nat} {cur : Word} {is : List Instruction}
    (h : sweep opcodeTable r fuel cur = some is) :
    Disassembler.count opcodeTable r fuel cur = is.length := by
  induction fuel generalizing cur is with
  | zero => exact absurd h (by simp [sweep])
  | succ fuel ih =>
    unfold sweep at h
    unfold Disassembler.count
    by_cases hin : inCode r cur = true
    · cases hd : decodeInstruction opcodeTable r cur with
      | none => simp [Disassembler.decodeE, hin, hd] at h
      | some i =>
        rw [decodeE_some false hin hd] at h
        obtain ⟨is', his, rfl⟩ := Option.map_eq_some_iff.mp h
        rw [decode_eq hin, hd]
        show Disassembler.count opcodeTable r fuel i.next + 1 = _
        rw [ih his, List.length_cons]
    · simp [Disassembler.decodeE, hin] at h
      subst h
      simp [Disassembler.decode, hin]

/-- the cells of the code that lie ahead of an address -/
def cellsAhead (r : AmxRef) (cur : Word) : Nat :=
  if inCode r cur then (r.header.dat.toInt - r.header.cod.toInt - cur.toInt + 3).toNat / 4 else 0

theorem sweep_none_of {fuel : Nat} {cur : Word} (hf : cellsAhead r cur < fuel)
    (h : sweep opcodeTable r fuel cur = none) :
    ∃ a, inCode r a = true ∧ decodeInstruction opcodeTable r a = none := by
  induction fuel generalizing cur with
  | zero => omega
  | succ fuel ih =>
    unfold sweep at h
    by_cases hin : inCode r cur = true
    · cases hd : decodeInstruction opcodeTable r cur with
      | none => exact ⟨cur, hin, hd⟩
      | some i =>
        rw [decodeE_some false hin hd] at h
        refine ih ?_ (Option.map_eq_none_iff.mp h)
        obtain ⟨ha, hb⟩ := (inCode_iff cur).mp hin
        unfold cellsAhead at hf ⊢
        rw [if_pos hin] at hf
        split
        · have := lt_next hd hin (by assumption)
          omega
        · omega
    · simp [Disassembler.decodeE, hin] at h

theorem cellsAhead_lt (r : AmxRef) : cellsAhead r 0 < sweepFuel r := by
  unfold cellsAhead sweepFuel
  split
  · have : (0 : Word).toInt = 0 := rfl
    omega
  · omega

/-- The fuel of a sweep suffices: it fails at a decoding error only. -/
theorem sweep_none (h : sweep opcodeTable r (sweepFuel r) 0 = none) :
    ∃ a, inCode r a = true ∧ decodeInstruction opcodeTable r a = none :=
  sweep_none_of (cellsAhead_lt r) h

/-- an instruction takes one of the cells ahead, at least -/
theorem cellsAhead_next {cur : Word} {i : Instruction} (hin : inCode r cur = true)
    (hd : decodeInstruction opcodeTable r cur = some i) :
    cellsAhead r i.next < cellsAhead r cur := by
  obtain ⟨ha, hb⟩ := (inCode_iff cur).mp hin
  unfold cellsAhead
  rw [if_pos hin]
  split
  · have := lt_next hd hin (by assumption)
    omega
  · omega

theorem Swept.length_le {cur : Word} {is : List Instruction} (h : Swept opcodeTable r cur is) :
    is.length ≤ cellsAhead r cur := by
  induction is generalizing cur with
  | nil => exact Nat.zero_le _
  | cons i is ih =>
    obtain ⟨hin, hd, hs⟩ := h
    have hle := ih hs
    have hlt := cellsAhead_next hin hd
    rw [List.length_cons]
    omega

theorem Swept.sweep_of_lt {fuel : Nat} {cur : Word} {is : List Instruction}
    (h : Swept opcodeTable r cur is) (hlen : is.length < fuel) :
    sweep opcodeTable r fuel cur = some is := by
  induction fuel generalizing cur is with
  | zero => exact absurd hlen (Nat.not_lt_zero _)
  | succ fuel ih =>
    unfold sweep
    cases is with
    | nil =>
      have hin : inCode r cur = false := h
      unfold Disassembler.decodeE
      rw [hin]
      rfl
    | cons i is =>
      obtain ⟨hin, hd, hs⟩ := h
      rw [decodeE_some false hin hd]
      show (sweep opcodeTable r fuel i.next).map (i :: ·) = _
      rw [ih hs (Nat.lt_of_succ_lt_succ hlen)]
      rfl

/-- A sweep finds what there is to find. -/
theorem sweep_of_swept {is : List Instruction} (h : Swept opcodeTable r 0 is) :
    sweep opcodeTable r (sweepFuel r) 0 = some is :=
  h.sweep_of_lt (lt_of_le_of_lt h.length_le (cellsAhead_lt r))

/-! ## swept instructions -/

theorem Swept.ge {cur : Word} {is : List Instruction} (h : Swept opcodeTable r cur is) :
    ∀ i ∈ is, cur.toInt ≤ i.address.toInt := by
  induction is generalizing cur with
  | nil => simp
  | cons i is ih =>
    obtain ⟨hin, hd, hs⟩ := h
    intro j hj
    rcases List.mem_cons.mp hj with rfl | hj
    · rw [decodeInstruction_address hd]
    · have h1 := ih hs j hj
      cases is with
      | nil => simp at hj
      | cons k is =>
        have h2 := lt_next hd hin hs.1
        omega

/-- Addresses increase strictly. -/
theorem Swept.increasing {cur : Word} {is : List Instruction} (h : Swept opcodeTable r cur is) :
    is.Pairwise fun i j => i.address.slt j.address = true := by
  induction is generalizing cur with
  | nil => exact .nil
  | cons i is ih =>
    obtain ⟨hin, hd, hs⟩ := h
    refine .cons (fun j hj => ?_) (ih hs)
    have h1 := hs.ge j hj
    rw [BitVec.slt, decide_eq_true_iff, decodeInstruction_address hd]
    cases is with
    | nil => simp at hj
    | cons k is =>
      have h2 := lt_next hd hin hs.1
      omega

theorem Swept.mem {cur : Word} {is : List Instruction} (h : Swept opcodeTable r cur is)
    {i : Instruction} (hi : i ∈ is) :
    inCode r i.address = true ∧ decodeInstruction opcodeTable r i.address = some i := by
  induction is generalizing cur with
  | nil => simp at hi
  | cons j is ih =>
    obtain ⟨hin, hd, hs⟩ := h
    rcases List.mem_cons.mp hi with rfl | hi
    · rw [decodeInstruction_address hd]
      exact ⟨hin, hd⟩
    · exact ih hs hi

/-- swept instructions with the same address are the same -/
theorem Swept.address_inj {cur : Word} {is : List Instruction} (h : Swept opcodeTable r cur is)
    {i j : Instruction} (hi : i ∈ is) (hj : j ∈ is) (ha : i.address = j.address) : i = j := by
  have h1 := (h.mem hi).2
  rw [ha, (h.mem hj).2] at h1
  exact (Option.some.inj h1).symm

theorem Swept.tail {cur : Word} {is js : List Instruction} (h : Swept opcodeTable r cur (is ++ js)) :
    ∃ cur', Swept opcodeTable r cur' js := by
  induction is generalizing cur with
  | nil => exact ⟨cur, h⟩
  | cons i is ih => exact ih h.2.2

end

end AmxJit
