import AmxJit.Amx.Ref

/-!
# The tables of public and native functions

The header says how large a record of its tables is (`defsize`), and the number of records is
computed from that; the records are read as an array of `AMX_FUNCSTUBNT`, of 8 bytes each.

* `field`                 the address field of a record, read with the header's record size;
* `Reads`, `Finds`        what the accessors and the searches are for;
* `function_tables_iff`   they do that for all contents of the tables exactly if a record has 8 bytes,
                          or there is only one.
-/

namespace AmxJit
open X86

namespace AmxRef
variable (r : AmxRef)

/-- the address field of record `i` of the table at the offset `table` -/
def field (table : Word) (i : Nat) : Word :=
  r.mem.read32 (table + r.amx.base + r.header.defsize.signExtend 32 * BitVec.ofNat 32 i)

/-- `get` returns the address fields of the `num` records, and 0 for any other index but `exempt`. -/
def Reads (table : Word) (num : Int) (exempt : List Word) (get : Word → Word) : Prop :=
  (∀ i : Nat, i < num → get (BitVec.ofNat 32 i) = r.field table i) ∧
    ∀ index : Word, index ∉ exempt → ¬ (0 ≤ index.toInt ∧ index.toInt < num) → get index = 0

/-- `find` returns the first record with an address, or -1. -/
def Finds (table : Word) (num : Int) (find : Word → Word) : Prop :=
  ∀ a, (∃ i : Nat, i < num ∧ r.field table i = a ∧ (∀ j < i, r.field table j ≠ a) ∧
      find a = BitVec.ofNat 32 i) ∨
    (∀ i : Nat, i < num → r.field table i ≠ a) ∧ find a = -1

/-- The accessors and the searches of both tables use the header's record size. -/
structure TablesRead : Prop where
  getPublicAddress : r.Reads r.header.publics r.numPublics [AMX_EXEC_MAIN] r.getPublicAddress
  findPublic : r.Finds r.header.publics r.numPublics r.findPublic
  getNativeAddress : r.Reads r.header.natives r.numNatives [] r.getNativeAddress
  findNative : r.Finds r.header.natives r.numNatives r.findNative

/-! ## the records as they are read -/

/-- `AMX_FUNCSTUBNT` `i` of the table at the offset `table` -/
def stub (table : Word) (i : Word) : Word := r.mem.read32 (table + r.amx.base + 8 * i)

/-- the two readings of a table agree -/
def Same (table : Word) (num : Int) : Prop :=
  ∀ i : Nat, i < num → r.stub table (BitVec.ofNat 32 i) = r.field table i

variable {r}

theorem toInt_ofNat_of_lt {i : Nat} {num : Int} (hi : i < num) (hnum : num < 2^31) :
    (BitVec.ofNat 32 i).toInt = i := by
  rw [BitVec.toInt_eq_toNat_of_lt, BitVec.toNat_ofNat, Nat.mod_eq_of_lt (by omega)]
  rw [BitVec.toNat_ofNat]
  omega

theorem tdiv_lt (x : Word) {d : Int} (hd : 0 < d) : x.toInt.tdiv d < 2^31 := by
  have hx := BitVec.toInt_lt (x := x)
  by_cases h : 0 ≤ x.toInt
  · exact lt_of_le_of_lt (Int.tdiv_le_self d h) hx
  · have hneg := Int.tdiv_nonneg (a := -x.toInt) (b := d) (by omega) (le_of_lt hd)
    rw [Int.neg_tdiv] at hneg
    omega

/-- an accessor whose records agree with the header's -/
theorem reads_of_same {table : Word} {num : Int} {exempt : List Word} {get : Word → Word}
    (hnum : num < 2^31) (hexempt : ∀ index ∈ exempt, index.toInt < 0) (h : r.Same table num)
    (hget : ∀ index ∉ exempt, get index =
      if 0 ≤ index.toInt ∧ index.toInt < num then r.stub table index else 0) :
    r.Reads table num exempt get := by
  refine ⟨fun i hi => ?_, fun index hx hno => ?_⟩
  · have hint := toInt_ofNat_of_lt hi hnum
    have hx : BitVec.ofNat 32 i ∉ exempt := by
      intro hm
      have := hexempt _ hm
      omega
    rw [hget _ hx, hint, if_pos ⟨by omega, hi⟩]
    exact h i hi
  · rw [hget index hx, if_neg hno]

/-- a loop that looks for `a` among `n` records from record `k` on -/
theorem search_spec {f : Word → Word} {a : Word} {go : Nat → Word → Word}
    (h0 : ∀ i, go 0 i = -1) (hs : ∀ n i, go (n + 1) i = if f i = a then i else go n (i + 1))
    (n k : Nat) :
    (∃ i, k ≤ i ∧ i < k + n ∧ f (BitVec.ofNat 32 i) = a ∧
        (∀ j, k ≤ j → j < i → f (BitVec.ofNat 32 j) ≠ a) ∧
        go n (BitVec.ofNat 32 k) = BitVec.ofNat 32 i) ∨
      (∀ i, k ≤ i → i < k + n → f (BitVec.ofNat 32 i) ≠ a) ∧ go n (BitVec.ofNat 32 k) = -1 := by
  induction n generalizing k with
  | zero => exact .inr ⟨fun i h1 h2 => absurd h2 (by omega), h0 _⟩
  | succ n ih =>
    rw [hs]
    by_cases hk : f (BitVec.ofNat 32 k) = a
    · rw [if_pos hk]
      exact .inl ⟨k, le_refl k, by omega, hk, fun j h1 h2 => absurd h2 (by omega), rfl⟩
    · have hnext : BitVec.ofNat 32 k + 1 = BitVec.ofNat 32 (k + 1) := (BitVec.ofNat_add k 1).symm
      have hskip {j : Nat} (hj : k ≤ j) (h : k + 1 ≤ j → f (BitVec.ofNat 32 j) ≠ a) :
          f (BitVec.ofNat 32 j) ≠ a := by
        rcases Nat.eq_or_lt_of_le hj with rfl | hlt
        · exact hk
        · exact h hlt
      rw [if_neg hk, hnext]
      rcases ih (k + 1) with ⟨i, h1, h2, hf, hfirst, hgo⟩ | ⟨hnone, hgo⟩
      · exact .inl ⟨i, by omega, by omega, hf, fun j hj hlt => hskip hj fun hj' => hfirst j hj' hlt, hgo⟩
      · exact .inr ⟨fun i hi hlt => hskip hi fun hi' => hnone i hi' (by omega), hgo⟩

/-- a search whose records agree with the header's -/
theorem finds_of_same {table : Word} {num : Int} {go : Word → Nat → Word → Word}
    (h : r.Same table num) (h0 : ∀ a i, go a 0 i = -1)
    (hs : ∀ a n i, go a (n + 1) i = if r.stub table i = a then i else go a n (i + 1)) :
    r.Finds table num fun a => go a num.toNat 0 := by
  intro a
  rcases search_spec (h0 a) (hs a) num.toNat 0 with ⟨i, -, hi, hf, hfirst, hgo⟩ | ⟨hnone, hgo⟩
  · have hlt : (i : Int) < num := by omega
    refine .inl ⟨i, hlt, (h i hlt).symm.trans hf, fun j hj he => ?_, hgo⟩
    exact hfirst j (Nat.zero_le j) hj ((h j (by omega)).trans he)
  · refine .inr ⟨fun i hi he => ?_, hgo⟩
    exact hnone i (Nat.zero_le i) (by omega) ((h i hi).trans he)

/-! ## the record size -/

theorem same_of_size {table : Word} {num : Int} (h : r.header.defsize = 8 ∨ num ≤ 1) :
    r.Same table num := by
  intro i hi
  unfold stub field
  rcases h with h | h
  · rw [h]
    rfl
  · obtain rfl : i = 0 := by omega
    have hz (x : Word) : x * BitVec.ofNat 32 0 = 0 := BitVec.mul_zero
    rw [hz, hz]

/-- memory with one byte that is not 0 -/
def oneByte (p : Word) : Mem := fun a => if a = p then 1 else 0

theorem oneByte_read (p : Word) {q : Word} (hq : q ≠ p) :
    (oneByte p).read32 q ≠ (oneByte p).read32 p := by
  intro h
  have h' := congrArg (BitVec.extractLsb' 0 8) h
  rw [read32_low, read32_low] at h'
  unfold oneByte at h'
  rw [if_neg hq, if_pos rfl] at h'
  exact absurd h' (by decide)

/-- with another record size, the second record is read from another place -/
theorem size_of_reads {r : AmxRef} {table : Word} {num : Int} {exempt : List Word}
    (get : Mem → Word → Word)
    (hget : ∀ mem, get mem (BitVec.ofNat 32 1) = { r with mem := mem }.stub table (BitVec.ofNat 32 1))
    (hnum : 1 < num) (h : ∀ mem, { r with mem := mem }.Reads table num exempt (get mem)) :
    r.header.defsize = 8 := by
  by_contra hd
  have hone (x : Word) : x * BitVec.ofNat 32 1 = x := BitVec.mul_one x
  refine oneByte_read (table + r.amx.base + 8) (q := table + r.amx.base +
    r.header.defsize.signExtend 32) (fun he => hd ?_) ?_
  · have hs : r.header.defsize.signExtend 32 = 8 := add_left_cancel he
    have hi := congrArg BitVec.toInt hs
    rw [BitVec.toInt_signExtend_of_le (by omega)] at hi
    exact BitVec.toInt_inj.mp hi
  · have h1 := (h (oneByte (table + r.amx.base + 8))).1 1 hnum
    rw [hget] at h1
    unfold stub field at h1
    dsimp only at h1
    rw [hone, hone] at h1
    exact h1.symm

variable (r)

theorem numPublics_lt (hpos : 0 < r.header.defsize.toInt) : r.numPublics < 2^31 := tdiv_lt _ hpos

theorem numNatives_lt (hpos : 0 < r.header.defsize.toInt) : r.numNatives < 2^31 := tdiv_lt _ hpos

/-- **The tables are read with the header's record size**, whatever they hold, exactly if that is the
size of `AMX_FUNCSTUBNT` or no table has a second record. -/
theorem function_tables_iff (r : AmxRef) (hpos : 0 < r.header.defsize.toInt) :
    (∀ mem, { r with mem := mem }.TablesRead) ↔
      r.header.defsize = 8 ∨ r.numPublics ≤ 1 ∧ r.numNatives ≤ 1 := by
  constructor
  · intro h
    by_cases hd : r.header.defsize = 8
    · exact .inl hd
    · refine .inr ⟨?_, ?_⟩
      · by_contra hnum
        have hreads (mem : Mem) : { r with mem := mem }.Reads r.header.publics r.numPublics
            [AMX_EXEC_MAIN] { r with mem := mem }.getPublicAddress := (h mem).getPublicAddress
        refine hd (size_of_reads _ (fun mem => ?_) (not_le.mp hnum) hreads)
        have hmain : BitVec.ofNat 32 1 ≠ AMX_EXEC_MAIN := by decide
        have hlt : 0 ≤ (BitVec.ofNat 32 1).toInt ∧ (BitVec.ofNat 32 1).toInt < r.numPublics :=
          ⟨by decide, not_le.mp hnum⟩
        exact (if_neg hmain).trans (if_pos hlt)
      · by_contra hnum
        have hreads (mem : Mem) : { r with mem := mem }.Reads r.header.natives r.numNatives []
            { r with mem := mem }.getNativeAddress := (h mem).getNativeAddress
        refine hd (size_of_reads _ (fun mem => ?_) (not_le.mp hnum) hreads)
        have hlt : 0 ≤ (BitVec.ofNat 32 1).toInt ∧ (BitVec.ofNat 32 1).toInt < r.numNatives :=
          ⟨by decide, not_le.mp hnum⟩
        exact if_pos hlt
  · intro h mem
    have hp : { r with mem := mem }.Same r.header.publics r.numPublics :=
      same_of_size (h.imp id And.left)
    have hn : { r with mem := mem }.Same r.header.natives r.numNatives :=
      same_of_size (h.imp id And.right)
    refine ⟨?_, ?_, ?_, ?_⟩
    · refine reads_of_same (numPublics_lt r hpos) (fun index hx => ?_) hp fun index hx => ?_
      · rw [List.mem_singleton.mp hx]
        decide
      · exact if_neg fun he => hx (List.mem_singleton.mpr he)
    · exact finds_of_same hp (fun _ _ => rfl) fun _ _ _ => rfl
    · refine reads_of_same (numNatives_lt r hpos) (fun index hx => ?_) hn fun index _ => rfl
      exact absurd hx (by simp)
    · exact finds_of_same hn (fun _ _ => rfl) fun _ _ _ => rfl

/-- A table of two public functions with records of 12 bytes: the second one is read from the middle
of the first record. -/
theorem function_tables_stub :
    let r := { ofCells [7, 1, 2, 9, 1, 2] with header := ⟨12, 0, 0, 0, 256, 0, 0, 24, 24⟩ }
    r.numPublics = 2 ∧ r.getPublicAddress 1 = 2 ∧ r.field r.header.publics 1 = 9 := by
  decide

theorem function_tables_size :
    let r := { ofCells [7, 1, 9, 1] with header := ⟨8, 0, 0, 0, 256, 0, 0, 16, 16⟩ }
    r.getPublicAddress 1 = 9 ∧ r.findPublic 9 = 1 ∧
      ∀ mem, { r with mem := mem }.TablesRead := by
  intro r
  exact ⟨by decide, by decide, (function_tables_iff r (by decide)).mpr (.inl rfl)⟩

end AmxRef

end AmxJit
