import Mathlib

/-!
# Byte memory with 32-bit addresses

A memory is a total function from 32-bit addresses to bytes; addresses wrap around.

* `Mem.write m a n v`   the `n` low bytes of `v`, little endian, at `a`;
* `Mem.read8`, `Mem.read16`, `Mem.read32`   little-endian reads;
* `Sep a b`             the 4-byte words at `a` and `b` do not overlap;
* `read32_write32_self`, `read32_write32_sep`   read over write.

The address arithmetic of the emitted code is "register plus constant": `sub_sub_lit`, `add_lit_lit`
bring such an address to the form `base + constant`, where `Sep` is decided (`sep_add`).
-/

namespace X86

abbrev Word := BitVec 32
abbrev Byte := BitVec 8
abbrev Mem := Word → Byte

/-- the `n` low bytes of `v` at the address `a`, lowest byte first -/
def Mem.write {w : Nat} (m : Mem) (a : Word) (n : Nat) (v : BitVec w) : Mem := fun x =>
  if (x - a).toNat < n then v.extractLsb' (8 * (x - a).toNat) 8 else m x

def Mem.read8 (m : Mem) (a : Word) : Byte := m a
def Mem.read16 (m : Mem) (a : Word) : BitVec 16 := m (a + 1) ++ m a
def Mem.read32 (m : Mem) (a : Word) : Word := m (a + 3) ++ (m (a + 2) ++ (m (a + 1) ++ m a))

abbrev Mem.write32 (m : Mem) (a v : Word) : Mem := m.write a 4 v

/-- the words at `a` and `b` do not overlap -/
def Sep (a b : Word) : Prop := 4 ≤ (b - a).toNat ∧ 4 ≤ (a - b).toNat

instance (a b : Word) : Decidable (Sep a b) := inferInstanceAs (Decidable (_ ∧ _))

/-- the blocks of `n` bytes at `a` and `b` do not overlap -/
def BlockSep (a b : Word) (n : Nat) : Prop :=
  ∀ x : Word, (x - a).toNat < n → n ≤ (x - b).toNat

theorem add_sub_left (a k : Word) : a + k - a = k := by
  rw [BitVec.add_comm, BitVec.add_sub_cancel]

theorem add_sub_add (e a b : Word) : (e + b) - (e + a) = b - a := by
  apply BitVec.eq_of_toNat_eq
  simp only [BitVec.toNat_sub, BitVec.toNat_add]
  omega

theorem sep_add (e a b : Word) : Sep (e + a) (e + b) ↔ Sep a b := by
  unfold Sep; rw [add_sub_add, add_sub_add]

theorem sep_self_add (e b : Word) : Sep e (e + b) ↔ Sep 0 b := by
  have h := sep_add e 0#32 b
  rwa [BitVec.add_zero] at h

theorem sep_add_self (e a : Word) : Sep (e + a) e ↔ Sep a 0 := by
  have h := sep_add e a 0#32
  rwa [BitVec.add_zero] at h

/-! ## constants added to a register -/

theorem add_lit_lit (x : Word) (n k : Nat) :
    x + BitVec.ofNat 32 n + BitVec.ofNat 32 k = x + BitVec.ofNat 32 (n + k) := by
  rw [BitVec.add_assoc, BitVec.ofNat_add]

section
variable (x : Word) {a b c : Word}

theorem sub_add_lit (h : b - a = -c) : x - a + b = x - c := by
  rw [sub_add_eq_add_sub, add_sub_assoc, h, sub_eq_add_neg]

theorem sub_sub_lit (h : a + b = c) : x - a - b = x - c := by
  rw [sub_sub, h]

theorem add_sub_lit (h : a - b = -c) : x + a - b = x - c := by
  rw [add_sub_assoc, h, sub_eq_add_neg]

end

/-! ## read over write -/

theorem write_out {w : Nat} (m : Mem) (a : Word) (n : Nat) (v : BitVec w) (x : Word)
    (h : n ≤ (x - a).toNat) : m.write a n v x = m x := by
  unfold Mem.write
  rw [if_neg (by omega)]

theorem write_in {w : Nat} (m : Mem) (a : Word) (n : Nat) (v : BitVec w) (k : Nat)
    (hk : k < n) (hn : n ≤ 2^32) :
    m.write a n v (a + BitVec.ofNat 32 k) = v.extractLsb' (8 * k) 8 := by
  unfold Mem.write
  have hs : (a + BitVec.ofNat 32 k - a).toNat = k := by
    rw [add_sub_left, BitVec.toNat_ofNat, Nat.mod_eq_of_lt (by omega)]
  rw [hs, if_pos hk]

theorem read32_congr {m m' : Mem} {a : Word} (h : ∀ x : Word, (x - a).toNat < 4 → m' x = m x) :
    m'.read32 a = m.read32 a := by
  have hk : ∀ k : Word, k.toNat < 4 → m' (a + k) = m (a + k) := by
    intro k hk
    apply h
    rwa [add_sub_left]
  have h0 : m' a = m a := by
    have := hk 0#32 (by decide)
    rwa [BitVec.add_zero] at this
  unfold Mem.read32
  rw [h0, hk 1 (by decide), hk 2 (by decide), hk 3 (by decide)]

/-- the lowest byte of a word -/
theorem read32_low (m : Mem) (a : Word) : (m.read32 a).extractLsb' 0 8 = m a := by
  unfold Mem.read32
  ext j hj
  simp only [BitVec.getElem_extractLsb', BitVec.getLsbD_append, Nat.zero_add, hj, if_true]
  rw [if_pos (by omega), if_pos (by omega)]
  exact BitVec.getLsbD_eq_getElem hj

theorem read32_write32_self (m : Mem) (a v : Word) : (m.write32 a v).read32 a = v := by
  have h0 : m.write a 4 v a = v.extractLsb' 0 8 := by
    have := write_in m a 4 v 0 (by decide) (by decide)
    rwa [BitVec.add_zero] at this
  have h1 := write_in m a 4 v 1 (by decide) (by decide)
  have h2 := write_in m a 4 v 2 (by decide) (by decide)
  have h3 := write_in m a 4 v 3 (by decide) (by decide)
  unfold Mem.read32
  show m.write a 4 v (a + BitVec.ofNat 32 3) ++ (m.write a 4 v (a + BitVec.ofNat 32 2) ++
    (m.write a 4 v (a + BitVec.ofNat 32 1) ++ m.write a 4 v a)) = v
  rw [h0, h1, h2, h3]
  apply BitVec.eq_of_getLsbD_eq
  intro i hi
  simp only [BitVec.getLsbD_append, BitVec.getLsbD_extractLsb']
  grind

theorem read32_write_out {w : Nat} (m : Mem) (a : Word) (n : Nat) (v : BitVec w) (b : Word)
    (h : ∀ x : Word, (x - b).toNat < 4 → n ≤ (x - a).toNat) :
    (m.write a n v).read32 b = m.read32 b :=
  read32_congr fun x hx => write_out m a n v x (h x hx)

theorem read32_write32_sep (m : Mem) (a b v : Word) (h : Sep a b) :
    (m.write32 a v).read32 b = m.read32 b := by
  apply read32_write_out
  intro x hx
  obtain ⟨h1, h2⟩ := h
  have e : x - a = (x - b) + (b - a) := by
    apply BitVec.eq_of_toNat_eq
    simp only [BitVec.toNat_sub, BitVec.toNat_add]
    omega
  rw [e, BitVec.toNat_add]
  have e2 : (a - b).toNat = (2^32 - (b - a).toNat) % 2^32 := by
    simp only [BitVec.toNat_sub]
    omega
  omega

/-! ## memory seen from a base address -/

/-- the memory with addresses relative to `d` -/
def Mem.shift (m : Mem) (d : Word) : Mem := fun o => m (d + o)

section
variable (m : Mem) (d o : Word)

theorem shift_read8 : (m.shift d).read8 o = m.read8 (d + o) := rfl

theorem shift_read16 : (m.shift d).read16 o = m.read16 (d + o) := by
  simp only [Mem.read16, Mem.shift, BitVec.add_assoc]

theorem shift_read32 : (m.shift d).read32 o = m.read32 (d + o) := by
  simp only [Mem.read32, Mem.shift, BitVec.add_assoc]

theorem shift_write {w : Nat} (n : Nat) (v : BitVec w) :
    (m.write (d + o) n v).shift d = (m.shift d).write o n v := by
  funext x
  simp only [Mem.shift, Mem.write, add_sub_add]

end

end X86
