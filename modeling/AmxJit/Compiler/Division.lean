import AmxJit.Compiler.DataCorrect

/-!
# Signed division

`SDIV` and `SDIV_ALT` divide twice: the first `idiv` gives the quotient, the second divides the
remainder plus the divisor again.

* `Floored a b q r`    quotient and remainder of the division that rounds down;
* `Divides a b`        the dividends and divisors for which the code meets it;
* `emitSdiv_run`       what the code computes: the quotient is the one that rounds to zero;
* `sdiv_floored_iff`   it is the floored one exactly on `Divides`.
-/

namespace AmxJit
open X86

/-! ## floored division -/

/-- `q` and `r` divide `a` by `b`, and `r` has the sign of `b` -/
def Floored (a b q r : Int) : Prop := q * b + r = a ∧ (r = 0 ∨ (0 < r ↔ 0 < b)) ∧ |r| < |b|

/-- `b` divides `a`, or both have one sign and the remainder plus `b` is a 32-bit number. -/
def Divides (a b : Int) : Prop :=
  b ∣ a ∨ 0 < a ∧ 0 < b ∧ a.tmod b + b < 2^31 ∨ a < 0 ∧ b < 0 ∧ -2^31 ≤ a.tmod b + b

section
variable {a b r x : Int}

theorem abs_tmod_lt (hb : b ≠ 0) : |a.tmod b| < |b| := by
  rw [Int.abs_eq_natAbs, Int.abs_eq_natAbs, Int.natAbs_tmod]
  exact Int.ofNat_lt.mpr (Nat.mod_lt _ (Int.natAbs_pos.mpr hb))

/-- with the quotient that rounds to zero, the remainder has to have the sign of `b` -/
theorem floored_tdiv (hb : b ≠ 0) :
    Floored a b (a.tdiv b) r ↔ r = a.tmod b ∧ (r = 0 ∨ (0 < r ↔ 0 < b)) := by
  have hdiv := Int.tdiv_mul_add_tmod a b
  constructor
  · rintro ⟨h, hs, -⟩
    exact ⟨by omega, hs⟩
  · rintro ⟨rfl, hs⟩
    exact ⟨hdiv, hs, abs_tmod_lt hb⟩

/-- the remainder has the sign of the dividend -/
theorem tmod_sign : (0 ≤ a → 0 ≤ a.tmod b) ∧ (a ≤ 0 → a.tmod b ≤ 0) := by
  refine ⟨fun h => Int.tmod_nonneg b h, fun h => ?_⟩
  have := Int.tmod_nonneg b (a := -a) (by omega)
  rw [Int.neg_tmod] at this
  omega

/-- the second division gives a remainder of one sign with `b` back -/
theorem tmod_add_self (h : 0 ≤ x ∧ x < b ∨ x ≤ 0 ∧ b < x) : (x + b).tmod b = x := by
  have hpos {y c : Int} (h0 : 0 ≤ y) (hc : y < c) : (y + c).tmod c = y := by
    rw [Int.tmod_eq_emod_of_nonneg (by omega), Int.add_emod_right, Int.emod_eq_of_lt h0 hc]
  rcases h with ⟨h0, hb⟩ | ⟨h0, hb⟩
  · exact hpos h0 hb
  · have h := hpos (y := -x) (c := -b) (by omega) (by omega)
    rw [Int.tmod_neg, ← neg_add, Int.neg_tmod] at h
    omega

/-- a sum of 32-bit numbers of one sign, wrapped -/
theorem bmod_add (hx : -2^31 ≤ x ∧ x < 2^31) (hb : -2^31 ≤ b ∧ b < 2^31) :
    (x + b).bmod (2^32) = if x + b < -2^31 then x + b + 2^32
      else if x + b < 2^31 then x + b else x + b - 2^32 := by
  rw [Int.bmod_def]
  split_ifs <;> omega

/-- **The second remainder is the floored one exactly on `Divides`.** -/
theorem floored_iff_divides (ha : -2^31 ≤ a ∧ a < 2^31) (hb : -2^31 ≤ b ∧ b < 2^31)
    (h0 : b ≠ 0) :
    Floored a b (a.tdiv b) (((a.tmod b + b).bmod (2^32)).tmod b) ↔ Divides a b := by
  rw [floored_tdiv h0, Divides, Int.dvd_iff_tmod_eq_zero]
  have hlt := abs_tmod_lt (a := a) h0
  rw [Int.abs_eq_natAbs, Int.abs_eq_natAbs] at hlt
  obtain ⟨hnn, hnp⟩ := tmod_sign (a := a) (b := b)
  generalize a.tmod b = x at *
  have hw := bmod_add (x := x) (b := b) (by omega) hb
  constructor
  · rintro ⟨hr, hs⟩
    by_cases hx : x = 0
    · exact .inl hx
    have hs' := (hs.resolve_left (by rwa [hr]))
    rw [hr] at hs'
    -- an overflow would turn the sign of the second dividend
    rcases lt_trichotomy b 0 with hneg | hz | hpos
    · refine .inr (.inr ⟨by omega, hneg, ?_⟩)
      by_contra hover
      rw [hw, if_pos (by omega)] at hr
      have := (tmod_sign (a := x + b + 2^32) (b := b)).1 (by omega)
      omega
    · exact absurd hz h0
    · refine .inr (.inl ⟨by omega, hpos, ?_⟩)
      by_contra hover
      rw [hw, if_neg (by omega), if_neg hover] at hr
      have := (tmod_sign (a := x + b - 2^32) (b := b)).2 (by omega)
      omega
  · intro h
    have hr : ((x + b).bmod (2^32)).tmod b = x := by
      rcases h with rfl | ⟨hpos, hb0, hlim⟩ | ⟨hneg, hb0, hlim⟩
      · rw [zero_add] at hw ⊢
        rw [Int.bmod_eq_of_le (by omega) (by omega), Int.tmod_self]
      · rw [hw, if_neg (by omega), if_pos hlim]
        exact tmod_add_self (.inl ⟨by omega, by omega⟩)
      · rw [hw, if_neg (by omega), if_pos (by omega)]
        exact tmod_add_self (.inr ⟨by omega, by omega⟩)
    refine ⟨hr, ?_⟩
    rw [hr]
    rcases h with rfl | ⟨hpos, hb0, -⟩ | ⟨hneg, hb0, -⟩
    · exact .inl rfl
    · by_cases hx : x = 0
      · exact .inl hx
      · exact .inr (by omega)
    · by_cases hx : x = 0
      · exact .inl hx
      · exact .inr (by omega)
end

/-! ## the code -/

section

/-- `cdq` extends the sign -/
theorem cdq_toInt (x : Word) :
    ((if x.msb then BitVec.allOnes 32 else 0 : Word) ++ x : BitVec 64).toInt = x.toInt := by
  have h : ((if x.msb then BitVec.allOnes 32 else 0 : Word) ++ x : BitVec 64) =
      x.signExtend 64 := by
    ext i hi
    rw [BitVec.getElem_append, BitVec.getElem_signExtend]
    split
    · rfl
    · by_cases hm : x.msb
      · rw [if_pos hm, BitVec.getElem_allOnes, hm]
      · rw [if_neg hm, Bool.eq_false_iff.mpr hm]
        exact BitVec.getElem_zero _
  rw [h, BitVec.toInt_signExtend_of_le (by omega)]

/-- `cdq; idiv ecx` -/
theorem divide_run (adr : Label → Option Word) (s : Machine) (h0 : s.ecx ≠ 0)
    (ho : ¬ (s.eax = BitVec.intMin 32 ∧ s.ecx = -1)) :
    runSeq adr ([.cdq, .idiv .ecx] : Code) s =
      some { s with eax := s.eax.sdiv s.ecx, edx := s.eax.srem s.ecx } := by
  have hq := BitVec.toInt_sdiv_of_ne_or_ne s.eax s.ecx (by tauto)
  have hr := BitVec.toInt_srem s.eax s.ecx
  have hlt := BitVec.toInt_lt (x := s.eax.sdiv s.ecx)
  have hle := BitVec.le_toInt (x := s.eax.sdiv s.ecx)
  simp only [runSeq_cons, runSeq_nil, exec, Option.bind_some, State.get, State.doIdiv, cdq_toInt,
    ← hq, ← hr]
  rw [if_neg h0, if_neg (by omega), BitVec.ofInt_toInt, BitVec.ofInt_toInt]
  rfl

/-- the second dividend is not the least number if the divisor is -1 -/
theorem second_dividend (x y : Word) : ¬ (x.srem y + y = BitVec.intMin 32 ∧ y = -1) := by
  rintro ⟨h, h1⟩
  have hm : (-1 : Word).toInt = -1 := by decide
  have hr : (x.srem y).toInt = (0 : Word).toInt := by
    rw [h1, BitVec.toInt_srem, hm, Int.tmod_neg, Int.tmod_one]
    rfl
  rw [BitVec.toInt_inj.mp hr, h1] at h
  exact absurd h (by decide)

theorem emitSdiv_run (adr : Label → Option Word) (s : Machine) (h0 : s.ecx ≠ 0)
    (ho : ¬ (s.eax = BitVec.intMin 32 ∧ s.ecx = -1)) :
    runSeq adr emitSdiv s =
      some { s with
        eax := s.eax.sdiv s.ecx, ecx := (s.eax.srem s.ecx + s.ecx).srem s.ecx,
        edx := (s.eax.srem s.ecx + s.ecx).srem s.ecx, esi := s.eax.sdiv s.ecx } := by
  have hz : s.eax.srem s.ecx + s.ecx <<< 0 + 0 = s.eax.srem s.ecx + s.ecx := by
    rw [BitVec.shiftLeft_zero]
    exact BitVec.add_zero _
  have h1 := divide_run adr s h0 ho
  have h2 : runSeq adr ([.mov (.reg .esi) (.reg .eax), .lea .eax (ptrx .edx .ecx 0)] : Code)
      { s with eax := s.eax.sdiv s.ecx, edx := s.eax.srem s.ecx } =
      some { s with
        eax := s.eax.srem s.ecx + s.ecx, edx := s.eax.srem s.ecx, esi := s.eax.sdiv s.ecx } := by
    simp only [runSeq_cons, runSeq_nil, exec, State.load, State.store, State.get, State.set,
      State.ea, ptrx, Option.bind_some, hz]
  have h3 := divide_run adr { s with
    eax := s.eax.srem s.ecx + s.ecx, edx := s.eax.srem s.ecx, esi := s.eax.sdiv s.ecx }
    h0 (second_dividend s.eax s.ecx)
  have hsplit : emitSdiv = ([.cdq, .idiv .ecx] : Code) ++ (([.mov (.reg .esi) (.reg .eax),
      .lea .eax (ptrx .edx .ecx 0)] : Code) ++ (([.cdq, .idiv .ecx] : Code) ++
      ([.mov (.reg .ecx) (.reg .edx), .mov (.reg .eax) (.reg .esi)] : Code))) := rfl
  rw [hsplit, runSeq_append, h1, Option.bind_some, runSeq_append, h2, Option.bind_some,
    runSeq_append, h3, Option.bind_some]
  simp only [runSeq_cons, runSeq_nil, exec, State.load, State.store, State.get, State.set,
    Option.bind_some]

theorem emitSdivAlt_run (adr : Label → Option Word) (s : Machine) (h0 : s.eax ≠ 0)
    (ho : ¬ (s.ecx = BitVec.intMin 32 ∧ s.eax = -1)) :
    runSeq adr (.xchg (.reg .eax) (.reg .ecx) :: emitSdiv) s =
      some { s with
        eax := s.ecx.sdiv s.eax, ecx := (s.ecx.srem s.eax + s.eax).srem s.eax,
        edx := (s.ecx.srem s.eax + s.eax).srem s.eax, esi := s.ecx.sdiv s.eax } := by
  have hx : exec adr (.xchg (.reg .eax) (.reg .ecx) : Instr Cell Label) s =
      some { s with eax := s.ecx, ecx := s.eax } := rfl
  rw [runSeq_cons, hx, Option.bind_some, emitSdiv_run adr _ h0 ho]

/-- **Signed division is floored exactly on `Divides`**: the code of `SDIV` and `SDIV_ALT` leaves a
quotient in PRI and a remainder in ALT. -/
theorem sdiv_floored_iff (c : CompilerImpl) (r : AmxRef) (i : Instruction)
    (adr : Label → Option Word) (s : Machine) (a b : Word)
    (hi : i.opcode = .sdiv ∧ a = s.eax ∧ b = s.ecx ∨
      i.opcode = .sdivAlt ∧ a = s.ecx ∧ b = s.eax)
    (h0 : b ≠ 0) (ho : ¬ (a = BitVec.intMin 32 ∧ b = -1)) :
    ∃ is t, compileInstr c r i = some (asm is) ∧ runSeq adr is s = some t ∧
      (Floored a.toInt b.toInt t.eax.toInt t.ecx.toInt ↔ Divides a.toInt b.toInt) := by
  have hiff : Floored a.toInt b.toInt (a.sdiv b).toInt ((a.srem b + b).srem b).toInt ↔
      Divides a.toInt b.toInt := by
    have hb : b.toInt ≠ 0 := fun h => h0 (BitVec.toInt_inj.mp (h.trans BitVec.toInt_zero.symm))
    rw [BitVec.toInt_sdiv_of_ne_or_ne a b (by tauto), BitVec.toInt_srem, BitVec.toInt_add,
      BitVec.toInt_srem]
    exact floored_iff_divides ⟨BitVec.le_toInt a, BitVec.toInt_lt⟩ ⟨BitVec.le_toInt b, BitVec.toInt_lt⟩ hb
  rcases hi with ⟨hop, rfl, rfl⟩ | ⟨hop, rfl, rfl⟩
  · refine ⟨emitSdiv, _, ?_, emitSdiv_run adr s h0 ho, hiff⟩
    unfold compileInstr
    rw [hop]
    rfl
  · refine ⟨.xchg (.reg .eax) (.reg .ecx) :: emitSdiv, _, ?_, emitSdivAlt_run adr s h0 ho, hiff⟩
    unfold compileInstr
    rw [hop]
    rfl

end

/-- `-8` by `-3` -/
theorem sdiv_floored_example :
    ∃ is t, compileInstr plainCompiler (.ofCells []) ⟨0, .sdiv, []⟩ = some (asm is) ∧
      runSeq (fun _ => none) is
        { (AmxRef.ofCells []).machine 4096 0 with eax := -8, ecx := -3 } = some t ∧
      Floored (-8) (-3) t.eax.toInt t.ecx.toInt := by
  obtain ⟨is, t, hc, hrun, h⟩ := sdiv_floored_iff plainCompiler (.ofCells []) ⟨0, .sdiv, []⟩
    (fun _ => none) { (AmxRef.ofCells []).machine 4096 0 with eax := -8, ecx := -3 } (-8) (-3)
    (.inl ⟨rfl, rfl, rfl⟩) (by decide) (by decide)
  refine ⟨is, t, hc, hrun, h.mpr (.inr (.inr ?_))⟩
  decide

/-- `-5` by `10` leaves the quotient 0 and the remainder 5: the quotient is not the floored one. -/
theorem sdiv_not_floored :
    ¬ ∀ (a b : Word), b ≠ 0 → ¬ (a = BitVec.intMin 32 ∧ b = -1) →
      ∀ is t, compileInstr plainCompiler (.ofCells []) ⟨0, .sdiv, []⟩ = some (asm is) →
        runSeq (fun _ => none) is
          { (AmxRef.ofCells []).machine 4096 0 with eax := a, ecx := b } = some t →
        Floored a.toInt b.toInt t.eax.toInt t.ecx.toInt := by
  intro h
  have hrun := emitSdiv_run (fun _ => none)
    { (AmxRef.ofCells []).machine 4096 0 with eax := -5, ecx := 10 } (by decide) (by decide)
  have h5 := (h (-5) 10 (by decide) (by decide) emitSdiv _ rfl hrun).1
  revert h5
  decide

end AmxJit
