import AmxJit.Compiler.Jit
import AmxJit.Lib.Search

/-!
# The instruction table

`getJITInstrPtr` and `getANXAddressByJITInstrPtr` are the two lookups that compiled code calls.

* `instrTable_sorted`   the table increases strictly in the AMX address, weakly in the pointer;
* `lookup_address`, `lookup_ptr`   what the searches find in a sorted table;
* `instrTable_exact`    the lookups are exact on the table of a compiled program.
-/

namespace AmxJit
open X86 Search

/-- `GetJITInstrPtr`: 0 stands for an address without instruction -/
def getJITInstrPtr (table : List InstrTableEntry) (address : Word) : Word :=
  match table[lowerBound (fun e => e.address.slt address) table 0 table.length]? with
  | some e => if e.address = address then e.ptr else 0
  | none => 0

/-- `GetANXAddressByJITInstrPtr` -/
def getANXAddressByJITInstrPtr (table : List InstrTableEntry) (ptr : Word) : Word :=
  match table[lowerBound (fun e => e.ptr.ult ptr) table 0 table.length]? with
  | some e => if e.ptr = ptr then e.address else 0
  | none => 0

/-- the order of the table -/
def SortedTable (table : List InstrTableEntry) : Prop :=
  table.Pairwise fun e e' => e.address.slt e'.address = true ∧ e.ptr.toNat ≤ e'.ptr.toNat

section
variable {table : List InstrTableEntry}

theorem SortedTable.by_address (h : SortedTable table) (address : Word) :
    Partitioned (fun e => e.address.slt address) table := by
  refine h.imp fun {e e'} he hp => ?_
  have h1 := he.1
  simp only [BitVec.slt, decide_eq_true_iff] at h1 hp ⊢
  omega

theorem SortedTable.by_ptr (h : SortedTable table) (ptr : Word) :
    Partitioned (fun e => e.ptr.ult ptr) table := by
  refine h.imp fun {e e'} he hp => ?_
  have h1 := he.2
  simp only [BitVec.ult, decide_eq_true_iff] at hp ⊢
  omega

/-- the elements in front of the first hit miss -/
theorem find_split {α : Type} {q : α → Bool} {xs : List α} {a : α} (h : xs.find? q = some a) :
    q a = true ∧ ∃ l1 l2, xs = l1 ++ a :: l2 ∧ ∀ x ∈ l1, q x = false := by
  obtain ⟨hq, l1, l2, hx, hl⟩ := List.find?_eq_some_iff_append.mp h
  exact ⟨hq, l1, l2, hx, fun x hx => by simpa using hl x hx⟩

/-- **An address in the table is found.** -/
theorem lookup_address (h : SortedTable table) {e : InstrTableEntry} (he : e ∈ table) :
    getJITInstrPtr table e.address = e.ptr := by
  unfold getJITInstrPtr
  rw [lowerBound_find (h.by_address e.address)]
  obtain ⟨x, hx⟩ : ∃ x, table.find? (fun a => !a.address.slt e.address) = some x := by
    rw [← Option.isSome_iff_exists, List.find?_isSome]
    exact ⟨e, he, by simp [BitVec.slt]⟩
  obtain ⟨hq, l1, l2, rfl, hl⟩ := find_split hx
  have hxe : x = e := by
    rcases List.mem_append.mp he with hm | hm
    · exact absurd (hl e hm) (by simp [BitVec.slt])
    · rcases List.mem_cons.mp hm with rfl | hm
      · rfl
      · have h1 := ((List.pairwise_append.mp h).2.1)
        have h2 := ((List.pairwise_cons.mp h1).1 e hm).1
        rw [h2] at hq
        exact absurd hq (by simp)
  rw [hx, hxe]
  exact if_pos rfl

/-- an address that is not in the table gives 0 -/
theorem lookup_address_none (h : SortedTable table) {address : Word}
    (ha : ∀ e ∈ table, e.address ≠ address) : getJITInstrPtr table address = 0 := by
  unfold getJITInstrPtr
  rw [lowerBound_find (h.by_address address)]
  cases hx : table.find? fun a => !a.address.slt address with
  | none => rfl
  | some x => exact if_neg (ha x (List.mem_of_find?_eq_some hx))

/-- **A pointer in the table gives the least address with this pointer.** -/
theorem lookup_ptr (h : SortedTable table) {e : InstrTableEntry} (he : e ∈ table) :
    ⟨getANXAddressByJITInstrPtr table e.ptr, e.ptr⟩ ∈ table ∧
      ∀ e' ∈ table, e'.ptr = e.ptr →
        (getANXAddressByJITInstrPtr table e.ptr).sle e'.address = true := by
  have hfind := lowerBound_find (h.by_ptr e.ptr)
  obtain ⟨x, hx⟩ : ∃ x, table.find? (fun a => !a.ptr.ult e.ptr) = some x := by
    rw [← Option.isSome_iff_exists, List.find?_isSome]
    exact ⟨e, he, by simp [BitVec.ult]⟩
  obtain ⟨hq, l1, l2, rfl, hl⟩ := find_split hx
  have hge : e.ptr.toNat ≤ x.ptr.toNat := by simpa [BitVec.ult] using hq
  have hrest : ∀ e' ∈ l1 ++ x :: l2, e'.ptr = e.ptr →
      x.address.sle e'.address = true ∧ x.ptr.toNat ≤ e'.ptr.toNat := by
    intro e' he' hp
    rcases List.mem_append.mp he' with hm | hm
    · have := hl e' hm
      rw [hp] at this
      exact absurd this (by simp [BitVec.ult])
    · rcases List.mem_cons.mp hm with rfl | hm
      · exact ⟨by simp [BitVec.sle], le_refl _⟩
      · have h1 := (List.pairwise_append.mp h).2.1
        obtain ⟨h2, h3⟩ := (List.pairwise_cons.mp h1).1 e' hm
        rw [BitVec.slt, decide_eq_true_iff] at h2
        exact ⟨by rw [BitVec.sle, decide_eq_true_iff]; omega, h3⟩
  have hptr : x.ptr = e.ptr :=
    BitVec.eq_of_toNat_eq (le_antisymm (hrest e he rfl).2 hge)
  have hval : getANXAddressByJITInstrPtr (l1 ++ x :: l2) e.ptr = x.address := by
    unfold getANXAddressByJITInstrPtr
    rw [hfind, hx]
    exact if_pos hptr
  rw [hval]
  refine ⟨?_, fun e' he' hp => (hrest e' he' hp).1⟩
  rw [← hptr]
  exact List.mem_append_right l1 List.mem_cons_self

end

/-! ## the table of a compiled program -/

section
variable (jit : Jit)

theorem Jit.toNat_at (off : Nat) (h : off ≤ endOff jit.enc 0 jit.buffer.items) :
    (jit.image.at' off).toNat = jit.base.toNat + off := by
  have hfits := jit.fits
  show (jit.base + BitVec.ofNat 32 off).toNat = _
  rw [BitVec.toNat_add, BitVec.toNat_ofNat]
  omega

theorem instrTable_sorted : SortedTable jit.instrTable := by
  obtain ⟨hle, hsnd⟩ := jit.laid.map_snd
  have hfst : jit.buffer.instrMap.Pairwise fun e e' => e.1.slt e'.1 = true := by
    rw [← List.pairwise_map (f := Prod.fst) (R := fun a b : Word => a.slt b = true),
      jit.laid.map_fst, List.pairwise_map]
    exact jit.swept.increasing
  unfold SortedTable Jit.instrTable
  rw [List.pairwise_map]
  refine (hfst.and hsnd).imp_of_mem fun {e e'} he he' h => ⟨h.1, ?_⟩
  rw [jit.toNat_at e.2 (hle e he).2, jit.toNat_at e'.2 (hle e' he').2]
  have := h.2
  omega

/-- the address of an instruction leads to its code -/
theorem lookup_decoded {i : Instruction} (hi : i ∈ jit.instrs) :
    jit.native i.address = some (getJITInstrPtr jit.instrTable i.address) := by
  obtain ⟨a, hnat, hmem⟩ := jit.native_mem hi
  rw [lookup_address (instrTable_sorted jit) hmem, hnat]

theorem lookup_undecoded {a : Word} (ha : ∀ i ∈ jit.instrs, i.address ≠ a) :
    getJITInstrPtr jit.instrTable a = 0 := by
  apply lookup_address_none (instrTable_sorted jit)
  intro e he heq
  obtain ⟨i, hi, hie, -⟩ := jit.mem_instrTable he
  exact ha i hi (hie.trans heq)

/-- **The instruction table is exact.** -/
theorem instrTable_exact :
    jit.buffer.numEntries = jit.instrTable.length ∧
    SortedTable jit.instrTable ∧
    (∀ i ∈ jit.instrs, jit.native i.address = some (getJITInstrPtr jit.instrTable i.address)) ∧
    (∀ a, (∀ i ∈ jit.instrs, i.address ≠ a) → getJITInstrPtr jit.instrTable a = 0) ∧
    ∀ e ∈ jit.instrTable,
      ⟨getANXAddressByJITInstrPtr jit.instrTable e.ptr, e.ptr⟩ ∈ jit.instrTable ∧
      (∀ e' ∈ jit.instrTable, e'.ptr = e.ptr →
        (getANXAddressByJITInstrPtr jit.instrTable e.ptr).sle e'.address = true) ∧
      getJITInstrPtr jit.instrTable (getANXAddressByJITInstrPtr jit.instrTable e.ptr) = e.ptr := by
  have hsort := instrTable_sorted jit
  refine ⟨?_, hsort, fun i hi => lookup_decoded jit hi, fun a ha => lookup_undecoded jit ha,
    fun e he => ?_⟩
  · obtain ⟨is, his, hn, -⟩ := compile_spec jit.compiled
    have hlen := congrArg List.length jit.laid.map_fst
    rw [List.length_map, List.length_map] at hlen
    rw [hn, Jit.instrTable, List.length_map, hlen, Jit.instrs, his, Option.getD_some]
  · obtain ⟨hmem, hmin⟩ := lookup_ptr hsort he
    exact ⟨hmem, hmin, lookup_address hsort hmem⟩

end

end AmxJit
