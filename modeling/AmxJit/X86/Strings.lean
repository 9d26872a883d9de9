import AmxJit.X86.Instr

/-!
# The effect of the repeated string instructions

With the direction flag clear, `rep movs` copies a block (`repMovs_spec`, for blocks that do not
overlap), `rep stosd` fills one (`repStosd_spec`) and `repe cmpsb` compares two
(`repeCmpsb_spec`).
-/

namespace X86

variable {V : Type}

theorem sub_one_sub (x : Word) (n : Nat) :
    x - 1 - BitVec.ofNat 32 n = x - BitVec.ofNat 32 (n + 1) := by
  apply BitVec.eq_of_toNat_eq
  have h1 : (1 : Word).toNat = 1 := rfl
  simp only [BitVec.toNat_sub, BitVec.toNat_ofNat, h1]
  omega

theorem add_ofNat_sub (x d : Word) (w : Nat) (hw : w ≤ (x - d).toNat) :
    (x - (d + BitVec.ofNat 32 w)).toNat = (x - d).toNat - w := by
  have h1 := (x - d).isLt
  have e : x - (d + BitVec.ofNat 32 w) = (x - d) - BitVec.ofNat 32 w := by
    apply BitVec.eq_of_toNat_eq
    simp only [BitVec.toNat_sub, BitVec.toNat_add]
    omega
  rw [e, BitVec.toNat_sub, BitVec.toNat_ofNat]
  omega

theorem copy_zero (m : Mem) (dst src : Word) : m.copy dst src 0 = m := by
  funext x
  exact if_neg (Nat.not_lt_zero _)

/-- copying `w` bytes, and `k` more behind them -/
theorem copy_add (m : Mem) (dst src : Word) (w k : Nat) (hlen : w + k ≤ 2^32)
    (hsep : BlockSep src dst (w + k)) :
    (m.copy dst src w).copy (dst + BitVec.ofNat 32 w) (src + BitVec.ofNat 32 w) k =
      m.copy dst src (w + k) := by
  funext x
  unfold Mem.copy
  by_cases hx : (x - dst).toNat < w
  · have hfar : k ≤ (x - (dst + BitVec.ofNat 32 w)).toNat := by
      have hd := (x - dst).isLt
      have e : x - (dst + BitVec.ofNat 32 w) = (x - dst) - BitVec.ofNat 32 w := by
        apply BitVec.eq_of_toNat_eq
        simp only [BitVec.toNat_sub, BitVec.toNat_add]
        omega
      rw [e, BitVec.toNat_sub, BitVec.toNat_ofNat]
      by_cases hw : w = 2^32
      · omega
      · omega
    rw [if_neg (by omega), if_pos hx, if_pos (by omega)]
  · have hs := add_ofNat_sub x dst w (by omega)
    by_cases hk : (x - dst).toNat < w + k
    · rw [if_pos (by omega), if_pos hk]
      have ha : src + BitVec.ofNat 32 w + (x - (dst + BitVec.ofNat 32 w)) = src + (x - dst) := by
        apply BitVec.eq_of_toNat_eq
        simp only [BitVec.toNat_sub, BitVec.toNat_add]
        omega
      have hin : (src + (x - dst) - src).toNat < w + k := by rwa [add_sub_left]
      have := hsep _ hin
      rw [ha, if_neg (by omega)]
    · rw [if_neg (by omega), if_neg hx, if_neg hk]

/-- **`rep movs`**: `n` elements of `w` bytes -/
theorem repMovs_spec (w n : Nat) (s : State V) (hdf : s.flags.df = false) (hlen : w * n ≤ 2^32)
    (hsep : BlockSep s.esi s.edi (w * n)) :
    State.repMovs w n s =
      { s with
        mem := s.mem.copy s.edi s.esi (w * n),
        esi := s.esi + BitVec.ofNat 32 (w * n),
        edi := s.edi + BitVec.ofNat 32 (w * n),
        ecx := s.ecx - BitVec.ofNat 32 n } := by
  induction n generalizing s with
  | zero =>
    have h0 : s.ecx - BitVec.ofNat 32 0 = s.ecx := BitVec.sub_zero s.ecx
    simp only [Nat.mul_zero, copy_zero, BitVec.add_zero, h0, State.repMovs]
  | succ n ih =>
    have hwn : w * (n + 1) = w + w * n := by rw [Nat.mul_succ, Nat.add_comm]
    rw [hwn] at hlen hsep ⊢
    have hesi : (s.movs w).esi = s.esi + BitVec.ofNat 32 w := by
      simp only [State.movs, State.advance, hdf, Bool.false_eq_true, if_false]
    have hedi : (s.movs w).edi = s.edi + BitVec.ofNat 32 w := by
      simp only [State.movs, State.advance, hdf, Bool.false_eq_true, if_false]
    have hsep' : BlockSep (s.movs w).esi (s.movs w).edi (w * n) := by
      rw [hesi, hedi]
      intro x hx
      have h1 : (x - s.esi).toNat = (x - (s.esi + BitVec.ofNat 32 w)).toNat + w ∨
          2^32 ≤ (x - (s.esi + BitVec.ofNat 32 w)).toNat + w := by
        simp only [BitVec.toNat_sub, BitVec.toNat_add, BitVec.toNat_ofNat]
        omega
      have h2 := hsep x (by omega)
      rw [add_ofNat_sub x s.edi w (by omega)]
      omega
    rw [State.repMovs, ih (s.movs w) hdf (by omega) hsep', hesi, hedi]
    have hmem := copy_add s.mem s.edi s.esi w (w * n) hlen hsep
    simp only [State.movs, hmem, sub_one_sub, BitVec.add_assoc, ← BitVec.ofNat_add]

/-- `n` words from `dst` on hold `v` -/
def Mem.fill32 (m : Mem) (dst : Word) (n : Nat) (v : Word) : Mem := fun x =>
  if (x - dst).toNat < 4 * n then v.extractLsb' (8 * ((x - dst).toNat % 4)) 8 else m x

theorem fill32_zero (m : Mem) (dst v : Word) : m.fill32 dst 0 v = m := by
  funext x
  exact if_neg (Nat.not_lt_zero _)

theorem fill32_succ (m : Mem) (dst v : Word) (n : Nat) (hlen : 4 * (n + 1) ≤ 2^32) :
    (m.write32 dst v).fill32 (dst + 4) n v = m.fill32 dst (n + 1) v := by
  funext x
  unfold Mem.fill32
  by_cases hx : (x - dst).toNat < 4
  · have hfar : 4 * n ≤ (x - (dst + 4)).toNat := by
      have h4 : (4 : Word).toNat = 4 := rfl
      simp only [BitVec.toNat_sub, BitVec.toNat_add, h4] at hx ⊢
      omega
    rw [if_neg (by omega), if_pos (by omega)]
    show (if (x - dst).toNat < 4 then _ else _) = _
    rw [if_pos hx, Nat.mod_eq_of_lt hx]
  · have hs := add_ofNat_sub x dst 4 (by omega)
    have hs' : (x - (dst + 4)).toNat = (x - dst).toNat - 4 := hs
    by_cases hk : (x - dst).toNat < 4 * (n + 1)
    · rw [if_pos (by omega), if_pos hk, hs']
      congr 2
      omega
    · rw [if_neg (by omega), if_neg hk]
      exact write_out m dst 4 v x (by omega)

/-- **`rep stosd`** -/
theorem repStosd_spec (n : Nat) (s : State V) (hdf : s.flags.df = false)
    (hlen : 4 * n ≤ 2^32) :
    State.repStosd n s =
      { s with
        mem := s.mem.fill32 s.edi n s.eax,
        edi := s.edi + BitVec.ofNat 32 (4 * n),
        ecx := s.ecx - BitVec.ofNat 32 n } := by
  induction n generalizing s with
  | zero =>
    have h0 : s.ecx - BitVec.ofNat 32 0 = s.ecx := BitVec.sub_zero s.ecx
    simp only [Nat.mul_zero, fill32_zero, BitVec.add_zero, h0, State.repStosd]
  | succ n ih =>
    have hedi : s.stosd.edi = s.edi + 4 := by
      simp only [State.stosd, State.advance, hdf, Bool.false_eq_true, if_false]
      rfl
    rw [State.repStosd, ih s.stosd hdf (by omega), hedi]
    have hmem := fill32_succ s.mem s.edi s.eax n hlen
    have ha : s.edi + 4 + BitVec.ofNat 32 (4 * n) = s.edi + BitVec.ofNat 32 (4 * (n + 1)) := by
      rw [BitVec.add_assoc, show (4 : Word) = BitVec.ofNat 32 4 from rfl, ← BitVec.ofNat_add,
        show 4 + 4 * n = 4 * (n + 1) by omega]
    simp only [State.stosd, hmem, sub_one_sub, ha]

/-! ## comparison -/

/-- the first two bytes in which two blocks of `n` bytes differ -/
def Mem.firstDiff (m : Mem) (p q : Word) : Nat → Option (Byte × Byte)
  | 0 => none
  | n + 1 => if m p = m q then m.firstDiff (p + 1) (q + 1) n else some (m p, m q)

theorem add_one_ofNat (x : Word) (i : Nat) :
    x + 1 + BitVec.ofNat 32 i = x + BitVec.ofNat 32 (i + 1) := by
  rw [BitVec.add_assoc, Nat.add_comm i 1, BitVec.ofNat_add]
  rfl

theorem firstDiff_congr {m m' : Mem} {p q : Word} {n : Nat}
    (hp : ∀ i < n, m' (p + BitVec.ofNat 32 i) = m (p + BitVec.ofNat 32 i))
    (hq : ∀ i < n, m' (q + BitVec.ofNat 32 i) = m (q + BitVec.ofNat 32 i)) :
    m'.firstDiff p q n = m.firstDiff p q n := by
  have h0 (x : Word) : x + BitVec.ofNat 32 0 = x := BitVec.add_zero x
  induction n generalizing p q with
  | zero => rfl
  | succ n ih =>
    have hp0 := hp 0 (Nat.succ_pos n)
    have hq0 := hq 0 (Nat.succ_pos n)
    rw [h0] at hp0 hq0
    rw [Mem.firstDiff, Mem.firstDiff, hp0, hq0, ih]
    · intro i hi
      rw [add_one_ofNat]
      exact hp (i + 1) (by omega)
    · intro i hi
      rw [add_one_ofNat]
      exact hq (i + 1) (by omega)

theorem sub8_zf (f : Flags) (x y : Byte) : (f.sub8 x y).zf = decide (x = y) := by
  show (x - y == 0) = _
  rw [Bool.beq_eq_decide_eq, decide_eq_decide]
  exact BitVec.sub_eq_iff_eq_add.trans (by rw [zero_add])

theorem sub8_cf (f : Flags) (x y : Byte) : (f.sub8 x y).cf = decide (x.toNat < y.toNat) := by
  show BitVec.usubOverflow x y = _
  simp [BitVec.usubOverflow]

/-- **`repe cmpsb`** stops behind the first difference; the flags are those of the last comparison,
and without one they stay. -/
theorem repeCmpsb_spec (n : Nat) (s : State V) (hdf : s.flags.df = false) :
    ∃ (c si di : Word) (f : Flags),
      State.repeCmpsb n s = { s with ecx := c, esi := si, edi := di, flags := f } ∧
      f.df = false ∧ (n = 0 → f = s.flags) ∧
      (∀ x y, s.mem.firstDiff s.esi s.edi n = some (x, y) →
        f.zf = false ∧ f.cf = decide (x.toNat < y.toNat)) ∧
      (0 < n → s.mem.firstDiff s.esi s.edi n = none → f.zf = true ∧ f.cf = false) := by
  induction n generalizing s with
  | zero =>
    refine ⟨s.ecx, s.esi, s.edi, s.flags, rfl, hdf, fun _ => rfl, fun x y h => ?_, fun h => ?_⟩
    · exact absurd h (by simp [Mem.firstDiff])
    · exact absurd h (lt_irrefl 0)
  | succ n ih =>
    have hz : s.cmpsb.flags.zf = decide (s.mem s.esi = s.mem s.edi) := sub8_zf _ _ _
    have hc : s.cmpsb.flags.cf = decide ((s.mem s.esi).toNat < (s.mem s.edi).toNat) := sub8_cf _ _ _
    have hesi : s.cmpsb.esi = s.esi + 1 := by
      simp only [State.cmpsb, State.advance, hdf, Bool.false_eq_true, if_false]
      rfl
    have hedi : s.cmpsb.edi = s.edi + 1 := by
      simp only [State.cmpsb, State.advance, hdf, Bool.false_eq_true, if_false]
      rfl
    rw [State.repeCmpsb, Mem.firstDiff]
    by_cases heq : s.mem s.esi = s.mem s.edi
    · obtain ⟨c, si, di, f, hrun, hf, h0, hsome, hnone⟩ := ih s.cmpsb hdf
      rw [hesi, hedi] at hsome hnone
      rw [hz, if_pos (decide_eq_true heq), if_pos heq]
      refine ⟨c, si, di, f, hrun, hf, fun h => absurd h (Nat.succ_ne_zero n), hsome, fun _ hn => ?_⟩
      cases n with
      | zero =>
        rw [h0 rfl, hz, hc, heq]
        exact ⟨decide_eq_true rfl, decide_eq_false (lt_irrefl _)⟩
      | succ n => exact hnone (Nat.succ_pos n) hn
    · rw [hz, if_neg (by simpa using heq), if_neg heq]
      refine ⟨_, _, _, s.cmpsb.flags, rfl, hdf, fun h => absurd h (Nat.succ_ne_zero n),
        fun x y h => ?_, fun _ h => absurd h (by simp)⟩
      cases h
      rw [hz, hc]
      exact ⟨decide_eq_false heq, rfl⟩

end X86
