import AmxJit.X86.Mem

/-!
# Regions of memory

* `bytes p n`   the `n` bytes from `p` on;
* `below p n`   the `n` bytes below `p`;
* `Set.EqOn m m' K`   the memories agree in the region `K`; reads and writes for it;
* `pushes m p vs`   the memory after pushing `vs` at `p`.
-/

namespace X86

def bytes (p : Word) (n : Nat) : Set Word := {a | (a - p).toNat < n}

def below (p : Word) (n : Nat) : Set Word := {a | (p - 1 - a).toNat < n}

section
variable {p q a : Word} {n k : Nat}

theorem ofNat_toNat (v : Word) : BitVec.ofNat 32 v.toNat = v := by
  rw [BitVec.ofNat_toNat, BitVec.setWidth_eq]

theorem mem_bytes : a ∈ bytes p n ↔ (a - p).toNat < n := Iff.rfl

theorem mem_below : a ∈ below p n ↔ (p - 1 - a).toNat < n := Iff.rfl

theorem bytes_mono (h : n ≤ k) : bytes p n ⊆ bytes p k := fun _ ha => lt_of_lt_of_le ha h

theorem below_mono (h : n ≤ k) : below p n ⊆ below p k := fun _ ha => lt_of_lt_of_le ha h

/-- `k` bytes at the offset `i` of a region -/
theorem bytes_sub {i : Nat} (h : i + k ≤ n) :
    bytes (p + BitVec.ofNat 32 i) k ⊆ bytes p n := by
  intro x hx
  have hx' : (x - (p + BitVec.ofNat 32 i)).toNat < k := hx
  show (x - p).toNat < n
  simp only [BitVec.toNat_sub, BitVec.toNat_add, BitVec.toNat_ofNat] at hx' ⊢
  omega

/-- `k` bytes that end `i` bytes below `p`, or lower -/
theorem bytes_below {i : Nat} (hk : k ≤ i) (h : i ≤ n) :
    bytes (p - BitVec.ofNat 32 i) k ⊆ below p n := by
  intro x hx
  have hx' : (x - (p - BitVec.ofNat 32 i)).toNat < k := hx
  show (p - 1 - x).toNat < n
  have h1 : (1 : Word).toNat = 1 := rfl
  simp only [BitVec.toNat_sub, BitVec.toNat_ofNat, h1] at hx' ⊢
  omega

theorem below_below {i : Nat} (h : k + i ≤ n) (hn : n < 2^32) :
    below (p - BitVec.ofNat 32 i) k ⊆ below p n := by
  intro x hx
  have hx' : (p - BitVec.ofNat 32 i - 1 - x).toNat < k := hx
  show (p - 1 - x).toNat < n
  have h1 : (1 : Word).toNat = 1 := rfl
  simp only [BitVec.toNat_sub, BitVec.toNat_ofNat, h1] at hx' ⊢
  omega

theorem below_add {v : Word} (h : k + v.toNat ≤ n) :
    below p k ⊆ below (p + v) n := by
  intro x hx
  have hx' : (p - 1 - x).toNat < k := hx
  show (p + v - 1 - x).toNat < n
  have h1 : (1 : Word).toNat = 1 := rfl
  simp only [BitVec.toNat_sub, BitVec.toNat_add, h1] at hx' ⊢
  omega

/-- what lies below `p` and what lies from `p` on -/
theorem below_disjoint (h : n + k ≤ 2^32) : Disjoint (below p n) (bytes p k) := by
  rw [Set.disjoint_left]
  intro x hx hx'
  have h1 : (p - 1 - x).toNat < n := hx
  have h2 : (x - p).toNat < k := hx'
  have h3 : (1 : Word).toNat = 1 := rfl
  simp only [BitVec.toNat_sub, h3] at h1 h2
  omega

theorem below_bytes (h : n ≤ (p - q).toNat) (hk : (p - q).toNat ≤ k) : below p n ⊆ bytes q k := by
  intro x hx
  have hx' : (p - 1 - x).toNat < n := hx
  show (x - q).toNat < k
  have h1 : (1 : Word).toNat = 1 := rfl
  simp only [BitVec.toNat_sub, h1] at hx' h hk ⊢
  omega

theorem bytes_bytes (h : (p - q).toNat + n ≤ k) : bytes p n ⊆ bytes q k := by
  have hp : p = q + BitVec.ofNat 32 (p - q).toNat := by
    rw [ofNat_toNat, add_comm, BitVec.sub_add_cancel]
  rw [hp]
  exact bytes_sub h

theorem bytes_disjoint (h : n ≤ (q - p).toNat) (hk : k ≤ (p - q).toNat) :
    Disjoint (bytes p n) (bytes q k) := by
  rw [Set.disjoint_left]
  intro x hx hx'
  have h1 : (x - p).toNat < n := hx
  have h2 : (x - q).toNat < k := hx'
  simp only [BitVec.toNat_sub] at h1 h2 h hk
  omega

/-- `n` bytes above `p - b`, all below `p` -/
theorem bytes_above {i b : Nat} (hk : k ≤ i) (hi : i ≤ b) (h : b + n ≤ 2^32) :
    bytes (p - BitVec.ofNat 32 i) k ⊆ (below (p - BitVec.ofNat 32 b) n)ᶜ := by
  intro x hx hx'
  have h1 : (x - (p - BitVec.ofNat 32 i)).toNat < k := hx
  have h2 : (p - BitVec.ofNat 32 b - 1 - x).toNat < n := hx'
  have h3 : (1 : Word).toNat = 1 := rfl
  simp only [BitVec.toNat_sub, BitVec.toNat_ofNat, h3] at h1 h2
  omega

end

section
variable {m m' : Mem} {K : Set Word} {p : Word} {n : Nat}

theorem EqOn.read32 (h : Set.EqOn m' m K) (hp : bytes p 4 ⊆ K) : m'.read32 p = m.read32 p :=
  read32_congr fun _ hx => h (hp hx)

theorem eqOn_write {w : Nat} (v : BitVec w) (h : Disjoint (bytes p n) K) :
    Set.EqOn (m.write p n v) m K := by
  intro x hx
  apply write_out
  exact Nat.le_of_not_lt fun hlt => Set.disjoint_left.mp h hlt hx

end

/-- the bytes of a word -/
theorem read32_byte (m : Mem) (a : Word) {k : Nat} (hk : k < 4) :
    (m.read32 a).extractLsb' (8 * k) 8 = m (a + BitVec.ofNat 32 k) := by
  have h0 : a + BitVec.ofNat 32 0 = a := BitVec.add_zero a
  unfold Mem.read32
  apply BitVec.eq_of_getLsbD_eq
  intro i hi
  simp only [BitVec.getLsbD_extractLsb', BitVec.getLsbD_append]
  interval_cases k
  · rw [h0]
    grind
  · show _ = (m (a + 1)).getLsbD i
    grind
  · show _ = (m (a + 2)).getLsbD i
    grind
  · show _ = (m (a + 3)).getLsbD i
    grind

/-- memories with the same word at `a` have the same bytes there -/
theorem read32_inj {m m' : Mem} {a x : Word} (h : m'.read32 a = m.read32 a)
    (hx : (x - a).toNat < 4) : m' x = m x := by
  have he : a + BitVec.ofNat 32 (x - a).toNat = x := by
    rw [ofNat_toNat, add_comm, BitVec.sub_add_cancel]
  rw [← he, ← read32_byte m' a hx, h, read32_byte m a hx]

/-! ## pushes -/

def pushes (m : Mem) (p : Word) : List Word → Mem
  | [] => m
  | v :: vs => pushes (m.write32 (p - 4) v) (p - 4) vs

section
variable (m : Mem) (p : Word) (vs : List Word)

theorem pushes_eqOn (h : 4 * vs.length < 2^32) :
    Set.EqOn (pushes m p vs) m (below p (4 * vs.length))ᶜ := by
  induction vs generalizing m p with
  | nil => exact fun _ _ => rfl
  | cons v vs ih =>
    rw [List.length_cons] at h ⊢
    have hb : bytes (p - BitVec.ofNat 32 4) 4 ⊆ below p (4 * (vs.length + 1)) :=
      bytes_below (by omega) (by omega)
    have hl : below (p - BitVec.ofNat 32 4) (4 * vs.length) ⊆ below p (4 * (vs.length + 1)) :=
      below_below (by omega) (by omega)
    refine ((ih (m.write32 (p - 4) v) (p - 4) (by omega)).mono ?_).trans (eqOn_write v ?_)
    · exact Set.compl_subset_compl.mpr hl
    · exact Set.disjoint_left.mpr fun a ha hc => hc (hb ha)

theorem pushes_append (vs ws : List Word) :
    pushes m p (vs ++ ws) = pushes (pushes m p vs) (p - BitVec.ofNat 32 (4 * vs.length)) ws := by
  induction vs generalizing m p with
  | nil => exact congrArg (pushes m · ws) (BitVec.sub_zero p).symm
  | cons v vs ih =>
    have he : p - 4 - BitVec.ofNat 32 (4 * vs.length) =
        p - BitVec.ofNat 32 (4 * (v :: vs).length) := by
      rw [sub_sub, List.length_cons, Nat.mul_add, Nat.add_comm, BitVec.ofNat_add]
      rfl
    show pushes (m.write32 (p - 4) v) (p - 4) (vs ++ ws) = _
    rw [ih, he]
    rfl

theorem read_pushes {i : Nat} (hi : i < vs.length) (h : 4 * vs.length < 2^32) :
    (pushes m p vs).read32 (p - BitVec.ofNat 32 (4 * (i + 1))) = vs[i] := by
  induction vs generalizing m p i with
  | nil => exact absurd hi (Nat.not_lt_zero i)
  | cons v vs ih =>
    rw [List.length_cons] at h hi
    cases i with
    | zero =>
      have he := pushes_eqOn (m.write32 (p - 4) v) (p - 4) vs (by omega)
      show (pushes (m.write32 (p - 4) v) (p - 4) vs).read32 (p - 4) = v
      rw [EqOn.read32 he, read32_write32_self]
      refine Set.subset_compl_iff_disjoint_right.mpr (below_disjoint ?_).symm
      omega
    | succ i =>
      have ha : p - BitVec.ofNat 32 (4 * (i + 1 + 1)) = p - 4 - BitVec.ofNat 32 (4 * (i + 1)) := by
        apply BitVec.eq_of_toNat_eq
        have h4 : (4 : Word).toNat = 4 := rfl
        simp only [BitVec.toNat_sub, BitVec.toNat_ofNat, h4]
        omega
      rw [ha]
      exact ih (m.write32 (p - 4) v) (p - 4) (by omega) (by omega)

end

end X86
