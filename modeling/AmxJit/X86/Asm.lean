import AmxJit.X86.Instr
import AmxJit.Lib.Trans

/-!
# Assembled code: layout, labels, fetch

An assembler buffer is a list of `Item`s: instructions, label bindings, alignment, data.  The
length of an encoded instruction is a parameter `enc off i` (it may depend on the offset, as short
and long jumps do).  `endOff enc off is` is the offset behind `is` emitted at `off`.

* `Image`        a finished buffer at its load address, with the facts its producer guarantees;
* `Image.addr`   the address of a label, `Image.fetch` the instruction at an address;
* `Seg F adr a is b`   the items `is` occupy the addresses from `a` to `b`: the form in which
                 the execution rules below use a layout.  `F` is a fetch function.
* `Image.seg`    every contiguous part of the buffer is a `Seg`.

Alignment is executed as no-ops; the padding counts as one no-op of its length.
-/

set_option linter.unusedSectionVars false

namespace X86

inductive Item (C L : Type) where
  | instr (i : Instr C L)
  | label (l : L)
  | align (n : Nat)
  | data (n : Nat)
  deriving DecidableEq

variable {C L : Type}

/-- the number of bytes up to the next multiple of `n` -/
def padTo (n off : Nat) : Nat := (n - off % n) % n

def Item.size (enc : Nat → Instr C L → Nat) (off : Nat) : Item C L → Nat
  | .instr i => enc off i
  | .label _ => 0
  | .align n => padTo n off
  | .data n => n

def endOff (enc : Nat → Instr C L → Nat) : Nat → List (Item C L) → Nat
  | off, [] => off
  | off, it :: is => endOff enc (off + it.size enc off) is

/-- straight-line code as items -/
def code (is : List (Instr C L)) : List (Item C L) := is.map .instr

section
variable (enc : Nat → Instr C L → Nat)

theorem endOff_append (off : Nat) (xs ys : List (Item C L)) :
    endOff enc off (xs ++ ys) = endOff enc (endOff enc off xs) ys := by
  induction xs generalizing off with
  | nil => rfl
  | cons x xs ih => exact ih _

theorem le_endOff (off : Nat) (xs : List (Item C L)) : off ≤ endOff enc off xs := by
  induction xs generalizing off with
  | nil => exact le_refl off
  | cons x xs ih => exact le_trans (Nat.le_add_right _ _) (ih _)

/-- an instruction has bytes -/
theorem lt_endOff (henc : ∀ off i, 0 < enc off i) {i : Instr C L} {xs : List (Item C L)}
    (hi : Item.instr i ∈ xs) (off : Nat) : off < endOff enc off xs := by
  obtain ⟨ys, zs, rfl⟩ := List.append_of_mem hi
  have h1 := le_endOff enc off ys
  have h2 := le_endOff enc (endOff enc off ys + enc (endOff enc off ys) i) zs
  have h3 := henc (endOff enc off ys) i
  have he : endOff enc off (ys ++ .instr i :: zs) =
      endOff enc (endOff enc off ys + enc (endOff enc off ys) i) zs := endOff_append enc off ys _
  omega

variable [DecidableEq L]

def labelOff (l : L) : Nat → List (Item C L) → Option Nat
  | _, [] => none
  | off, .label l' :: is => if l' = l then some off else labelOff l off is
  | off, it :: is => labelOff l (off + it.size enc off) is

def instrAt (a : Nat) : Nat → List (Item C L) → Option (Instr C L × Nat)
  | _, [] => none
  | off, .instr i :: is =>
    if off = a then some (i, off + enc off i) else instrAt a (off + enc off i) is
  | off, .align n :: is =>
    if off = a ∧ 0 < padTo n off then some (.nop, off + padTo n off)
    else instrAt a (off + padTo n off) is
  | off, it :: is => instrAt a (off + it.size enc off) is

/-- the labels a buffer binds, in order -/
def labels : List (Item C L) → List L
  | [] => []
  | .label l :: is => l :: labels is
  | _ :: is => labels is

theorem labels_append (xs ys : List (Item C L)) : labels (xs ++ ys) = labels xs ++ labels ys := by
  induction xs with
  | nil => rfl
  | cons x xs ih => cases x <;> simp [labels, ih]

theorem labels_code (is : List (Instr C L)) : labels (code is) = [] := by
  induction is with
  | nil => rfl
  | cons i is ih => exact ih

theorem labelOff_skip (l : L) (off : Nat) (xs ys : List (Item C L)) (h : l ∉ labels xs) :
    labelOff enc l off (xs ++ ys) = labelOff enc l (endOff enc off xs) ys := by
  induction xs generalizing off with
  | nil => rfl
  | cons x xs ih =>
    cases x with
    | label l' =>
      simp only [labels, List.mem_cons, not_or] at h
      show (if l' = l then some off else labelOff enc l off (xs ++ ys)) = _
      rw [if_neg (Ne.symm h.1)]
      exact ih off h.2
    | instr i => exact ih _ h
    | align n => exact ih _ h
    | data n => exact ih _ h

/-- a label that is not bound has no offset -/
theorem labelOff_none (l : L) (off : Nat) (xs : List (Item C L)) (h : l ∉ labels xs) :
    labelOff enc l off xs = none := by
  have := labelOff_skip enc l off xs [] h
  rwa [List.append_nil] at this

theorem instrAt_skip (henc : ∀ off i, 0 < enc off i) (a off : Nat) (xs ys : List (Item C L))
    (h : endOff enc off xs ≤ a) :
    instrAt enc a off (xs ++ ys) = instrAt enc a (endOff enc off xs) ys := by
  induction xs generalizing off with
  | nil => rfl
  | cons x xs ih =>
    have hle : off + x.size enc off ≤ a := le_trans (le_endOff enc _ xs) h
    cases x with
    | instr i =>
      have h0 := henc off i
      show (if off = a then _ else _) = _
      rw [if_neg (by simp only [Item.size] at hle; omega)]
      exact ih _ h
    | label l => exact ih _ h
    | align n =>
      show (if off = a ∧ 0 < padTo n off then _ else _) = _
      rw [if_neg (by simp only [Item.size] at hle; omega)]
      exact ih _ h
    | data n => exact ih _ h

/-- an instruction lies inside the buffer -/
theorem instrAt_bounds (henc : ∀ off i, 0 < enc off i) {a off n : Nat} {xs : List (Item C L)}
    {i : Instr C L} (h : instrAt enc a off xs = some (i, n)) :
    a < n ∧ n ≤ endOff enc off xs := by
  induction xs generalizing off with
  | nil => exact absurd h (by simp [instrAt])
  | cons x xs ih =>
    cases x with
    | instr j =>
      rw [instrAt] at h
      split at h
      · rename_i hoff
        cases h
        have h0 := henc off i
        exact ⟨by omega, le_endOff enc (off + enc off i) xs⟩
      · exact ih h
    | label l => exact ih h
    | align k =>
      rw [instrAt] at h
      split at h
      · rename_i hoff
        cases h
        exact ⟨by omega, le_endOff enc (off + padTo k off) xs⟩
      · exact ih h
    | data k => exact ih h

theorem instrAt_le {a off : Nat} {xs : List (Item C L)} {r : Instr C L × Nat}
    (h : instrAt enc a off xs = some r) : off ≤ a := by
  induction xs generalizing off with
  | nil => exact absurd h (by simp [instrAt])
  | cons x xs ih =>
    have hlater (k : Nat) (h' : instrAt enc a (off + k) xs = some r) : off ≤ a :=
      le_trans (Nat.le_add_right off k) (ih h')
    cases x with
    | instr j =>
      rw [instrAt] at h
      split at h
      · omega
      · exact hlater _ h
    | label l => exact hlater _ h
    | align k =>
      rw [instrAt] at h
      split at h
      · omega
      · exact hlater _ h
    | data k => exact hlater _ h

/-- an instruction in front of the end of `xs` -/
theorem instrAt_front {a off : Nat} {xs ys : List (Item C L)} {r : Instr C L × Nat}
    (h : instrAt enc a off (xs ++ ys) = some r) (ha : a < endOff enc off xs) :
    instrAt enc a off xs = some r := by
  induction xs generalizing off with
  | nil =>
    have hle := instrAt_le enc h
    have hlt : a < off := ha
    omega
  | cons x xs ih =>
    cases x with
    | instr j =>
      rw [List.cons_append, instrAt] at h
      rw [instrAt]
      split at h
      · rename_i hoff
        rw [if_pos hoff]
        exact h
      · rename_i hoff
        rw [if_neg hoff]
        exact ih h ha
    | label l => exact ih h ha
    | align k =>
      rw [List.cons_append, instrAt] at h
      rw [instrAt]
      split at h
      · rename_i hoff
        rw [if_pos hoff]
        exact h
      · rename_i hoff
        rw [if_neg hoff]
        exact ih h ha
    | data k => exact ih h ha

end

/-! ## images -/

/-- A buffer at its load address.  Instructions have a positive length, no label is bound twice,
and the buffer lies inside the address space. -/
structure Image (C L : Type) [DecidableEq L] where
  enc : Nat → Instr C L → Nat
  base : Word
  items : List (Item C L)
  enc_pos : ∀ off i, 0 < enc off i
  nodup : (labels items).Nodup
  fits : base.toNat + endOff enc 0 items < 2^32

namespace Image
variable [DecidableEq L] (img : Image C L)

/-- the address of the offset `off` -/
def at' (off : Nat) : Word := img.base + BitVec.ofNat 32 off

/-- the offset of an address -/
def offset (a : Word) : Nat := (a - img.base).toNat

def addr (l : L) : Option Word := (labelOff img.enc l 0 img.items).map img.at'

def fetch (a : Word) : Option (Instr C L × Word) :=
  (instrAt img.enc (img.offset a) 0 img.items).map fun r => (r.1, img.at' r.2)

theorem offset_at (off : Nat) (h : off < 2^32) : img.offset (img.at' off) = off := by
  unfold offset at'
  rw [add_sub_left, BitVec.toNat_ofNat, Nat.mod_eq_of_lt h]

end Image

/-! ## segments -/

/-- The items occupy the addresses from `a` to `b`; `F` fetches their instructions and `adr`
knows their labels. -/
def Seg (F : Word → Option (Instr C L × Word)) (adr : L → Option Word) :
    Word → List (Item C L) → Word → Prop
  | a, [], b => a = b
  | a, .instr i :: is, b => ∃ c, F a = some (i, c) ∧ Seg F adr c is b
  | a, .label l :: is, b => adr l = some a ∧ Seg F adr a is b
  | a, .align _ :: is, b => ∃ c, (c = a ∨ F a = some (.nop, c)) ∧ Seg F adr c is b
  | _, .data _ :: is, b => ∃ c, Seg F adr c is b

section
variable {F : Word → Option (Instr C L × Word)} {adr : L → Option Word}

theorem seg_append {a b : Word} {xs ys : List (Item C L)} :
    Seg F adr a (xs ++ ys) b ↔ ∃ c, Seg F adr a xs c ∧ Seg F adr c ys b := by
  induction xs generalizing a with
  | nil =>
    constructor
    · intro h
      exact ⟨a, rfl, h⟩
    · rintro ⟨c, rfl, h⟩
      exact h
  | cons x xs ih =>
    rw [List.cons_append]
    cases x with
    | instr i =>
      simp only [Seg, ih]
      constructor
      · rintro ⟨c, hF, d, h1, h2⟩
        exact ⟨d, ⟨c, hF, h1⟩, h2⟩
      · rintro ⟨d, ⟨c, hF, h1⟩, h2⟩
        exact ⟨c, hF, d, h1, h2⟩
    | label l =>
      simp only [Seg, ih]
      constructor
      · rintro ⟨hl, d, h1, h2⟩
        exact ⟨d, ⟨hl, h1⟩, h2⟩
      · rintro ⟨d, ⟨hl, h1⟩, h2⟩
        exact ⟨hl, d, h1, h2⟩
    | align n =>
      simp only [Seg, ih]
      constructor
      · rintro ⟨c, hF, d, h1, h2⟩
        exact ⟨d, ⟨c, hF, h1⟩, h2⟩
      · rintro ⟨d, ⟨c, hF, h1⟩, h2⟩
        exact ⟨c, hF, d, h1, h2⟩
    | data n =>
      simp only [Seg, ih]
      constructor
      · rintro ⟨c, d, h1, h2⟩
        exact ⟨d, ⟨c, h1⟩, h2⟩
      · rintro ⟨d, ⟨c, h1⟩, h2⟩
        exact ⟨c, d, h1, h2⟩

/-- a segment restricted to the part of the fetch function that it uses -/
theorem Seg.mono {F' : Word → Option (Instr C L × Word)} {a b : Word} {is : List (Item C L)}
    (h : Seg F adr a is b) (hF : ∀ x r, F x = some r → F' x = some r) : Seg F' adr a is b := by
  induction is generalizing a with
  | nil => exact h
  | cons x is ih =>
    cases x with
    | instr i =>
      obtain ⟨c, h1, h2⟩ := h
      exact ⟨c, hF _ _ h1, ih h2⟩
    | label l => exact ⟨h.1, ih h.2⟩
    | align n =>
      obtain ⟨c, h1, h2⟩ := h
      exact ⟨c, h1.imp id (hF _ _), ih h2⟩
    | data n =>
      obtain ⟨c, h2⟩ := h
      exact ⟨c, ih h2⟩

end

namespace Image
variable [DecidableEq L] (img : Image C L)

/-- the instructions at offsets below `lim` -/
def fetchBelow (lim : Nat) (a : Word) : Option (Instr C L × Word) :=
  if img.offset a < lim then img.fetch a else none

theorem fetchBelow_fetch {lim : Nat} {a : Word} {r : Instr C L × Word}
    (h : img.fetchBelow lim a = some r) : img.fetch a = some r := by
  unfold fetchBelow at h
  split at h
  · exact h
  · exact absurd h (by simp)

/-- **Every contiguous part of the buffer is a segment**, also for the instructions below its end
alone. -/
theorem seg (pre mid post : List (Item C L)) (h : img.items = pre ++ mid ++ post) :
    Seg (img.fetchBelow (endOff img.enc 0 (pre ++ mid))) img.addr
      (img.at' (endOff img.enc 0 pre)) mid (img.at' (endOff img.enc 0 (pre ++ mid))) := by
  have hfits := img.fits
  have hend : endOff img.enc 0 (pre ++ mid) ≤ endOff img.enc 0 img.items := by
    rw [h, endOff_append _ _ (pre ++ mid)]
    exact le_endOff _ _ _
  generalize hlim : endOff img.enc 0 (pre ++ mid) = lim at *
  induction mid generalizing pre with
  | nil =>
    rw [List.append_nil] at hlim
    rw [hlim]
    rfl
  | cons x mid ih =>
    have h' : img.items = (pre ++ [x]) ++ mid ++ post := by rw [h]; simp
    have hlim' : endOff img.enc 0 ((pre ++ [x]) ++ mid) = lim := by rw [← hlim]; simp
    have ih' := ih (pre ++ [x]) h' hlim'
    rw [endOff_append] at ih'
    set off := endOff img.enc 0 pre with hoff
    have hle : off + x.size img.enc off ≤ lim := by
      have h1 := le_endOff img.enc (endOff img.enc 0 (pre ++ [x])) mid
      rw [← endOff_append, hlim', endOff_append] at h1
      exact h1
    have hat : instrAt img.enc off 0 img.items = instrAt img.enc off off (x :: mid ++ post) := by
      rw [h, List.append_assoc, instrAt_skip img.enc img.enc_pos off 0 pre _ (le_of_eq hoff.symm)]
    cases x with
    | instr i =>
      have hpos := img.enc_pos off i
      simp only [Item.size] at hle
      refine ⟨img.at' (off + img.enc off i), ?_, ih'⟩
      have ho := img.offset_at off (by omega)
      unfold fetchBelow fetch
      rw [ho, if_pos (by omega), hat]
      show ((if off = off then some (i, off + img.enc off i) else _).map _) = _
      rw [if_pos rfl]
      rfl
    | label l =>
      refine ⟨?_, ih'⟩
      have hn : l ∉ labels pre := by
        have hnd := img.nodup
        rw [h, List.append_assoc, labels_append] at hnd
        intro hl
        have := (List.nodup_append.mp hnd).2.2 l hl l (by simp [labels])
        exact this rfl
      unfold addr
      rw [h, List.append_assoc, labelOff_skip img.enc l 0 pre _ hn]
      show ((if l = l then some off else _).map _) = _
      rw [if_pos rfl]
      rfl
    | align n =>
      simp only [Item.size] at hle
      refine ⟨img.at' (off + padTo n off), ?_, ih'⟩
      by_cases hp : 0 < padTo n off
      · right
        have ho := img.offset_at off (by omega)
        unfold fetchBelow fetch
        rw [ho, if_pos (by omega), hat]
        show ((if off = off ∧ 0 < padTo n off then some (Instr.nop, off + padTo n off) else _).map _)
          = _
        rw [if_pos ⟨rfl, hp⟩]
        rfl
      · left
        rw [Nat.eq_zero_of_not_pos hp]
        rfl
    | data n => exact ⟨_, ih'⟩

theorem addr_label {l : L} {pre post : List (Item C L)} (h : img.items = pre ++ .label l :: post) :
    img.addr l = some (img.at' (endOff img.enc 0 pre)) := by
  have hl : l ∉ labels pre := by
    intro hm
    have hn := img.nodup
    rw [h, labels_append] at hn
    exact (List.nodup_append.mp hn).2.2 l hm l List.mem_cons_self rfl
  unfold addr
  rw [h, labelOff_skip img.enc l 0 pre _ hl]
  show (if l = l then _ else _ : Option Nat).map _ = _
  rw [if_pos rfl]
  rfl

/-- labels with code between them have different addresses -/
theorem addr_ne {l l' : L} {i : Instr C L} {pre mid post : List (Item C L)}
    (h : img.items = pre ++ .label l :: (mid ++ .label l' :: post)) (hi : Item.instr i ∈ mid) :
    img.addr l ≠ img.addr l' := by
  have h' : img.items = (pre ++ .label l :: mid) ++ .label l' :: post := by
    rw [h, List.append_assoc]
    rfl
  have hend : endOff img.enc 0 (pre ++ .label l :: mid) ≤ endOff img.enc 0 img.items := by
    rw [h', endOff_append _ _ (pre ++ .label l :: mid)]
    exact le_endOff _ _ _
  have hlt : endOff img.enc 0 pre < endOff img.enc 0 (pre ++ .label l :: mid) := by
    rw [endOff_append _ _ pre]
    exact lt_endOff img.enc img.enc_pos (List.mem_cons_of_mem _ hi) _
  have hfits := img.fits
  rw [img.addr_label h, img.addr_label h']
  intro he
  have ho := congrArg img.offset (Option.some.inj he)
  rw [img.offset_at _ (by omega), img.offset_at _ (by omega)] at ho
  omega

/-- a series of labels, each with code behind it -/
theorem addr_pairwise {ps : List (L × List (Item C L))} {pre post : List (Item C L)}
    (h : img.items = pre ++ (ps.flatMap (fun p => .label p.1 :: p.2) ++ post))
    (hi : ∀ p ∈ ps, ∃ i, Item.instr i ∈ p.2) :
    ps.Pairwise fun p q => img.addr p.1 ≠ img.addr q.1 := by
  induction ps generalizing pre with
  | nil => exact .nil
  | cons p ps ih =>
    obtain ⟨i, hp⟩ := hi p List.mem_cons_self
    have htail : img.items = (pre ++ .label p.1 :: p.2) ++
        (ps.flatMap (fun p => .label p.1 :: p.2) ++ post) := by
      rw [h, List.flatMap_cons]
      simp only [List.append_assoc, List.cons_append]
    refine .cons (fun q hq => ?_) (ih htail fun q hq => hi q (List.mem_cons_of_mem p hq))
    obtain ⟨qs, rs, rfl⟩ := List.append_of_mem hq
    have hitems : img.items = pre ++ .label p.1 ::
        ((p.2 ++ qs.flatMap fun p => .label p.1 :: p.2) ++ .label q.1 ::
          (q.2 ++ (rs.flatMap (fun p => .label p.1 :: p.2) ++ post))) := by
      rw [h]
      simp only [List.flatMap_cons, List.flatMap_append, List.append_assoc, List.cons_append]
    exact img.addr_ne hitems (List.mem_append_left _ hp)

end Image

/-! ## execution over segments -/

section
variable {V : Type} [Cells C V]

/-- At the addresses that `F` knows, the relation `R` is the execution of the instruction there. -/
def Driven (F : Word → Option (Instr C L × Word)) (adr : L → Option Word)
    (R : State V → State V → Prop) : Prop :=
  ∀ s i n, F s.pc = some (i, n) → ∀ t, R s t ↔ step adr i n s = some t

variable {F : Word → Option (Instr C L × Word)} {adr : L → Option Word}
  {R : State V → State V → Prop} {Q : State V → Prop}

open Trans

/-- `P` holds at the addresses that `F` knows, but for the calls of some labels. -/
def Passes (F : Word → Option (Instr C L × Word)) (avoid : L → Prop) (P : State V → Prop) : Prop :=
  ∀ s i n, F s.pc = some (i, n) → (∀ l, i = .call l → ¬ avoid l) → P s

theorem passes_true (avoid : L → Prop) : Passes F avoid fun _ : State V => True :=
  fun _ _ _ _ _ => trivial

variable {P : State V → Prop} {avoid : L → Prop}

theorem until_instr (hR : Driven F adr R) (hP : Passes F avoid P) {s t : State V} {i : Instr C L}
    {n : Word} (hf : F s.pc = some (i, n)) (hi : ∀ l, i = .call l → ¬ avoid l)
    (he : step adr i n s = some t) (h : Until R P Q t) : Until R P Q s := by
  refine Until.det (hP s i n hf hi) (fun u => ?_) h
  rw [hR s i n hf u, he, Option.some.injEq]
  exact eq_comm

/-- a straight line of instructions -/
theorem until_run (hR : Driven F adr R) (hP : Passes F avoid P) {is : List (Instr C L)} {a b : Word}
    (hseg : Seg F adr a (code is) b) {s t : State V} (hpc : s.pc = a)
    (he : runSeq adr is s = some t) (h : Until R P Q { t with pc := b }) : Until R P Q s := by
  induction is generalizing a s t with
  | nil =>
    have ht : s = t := Option.some.inj he
    have hb : a = b := hseg
    subst ht hb
    rwa [← hpc] at h
  | cons i is ih =>
    obtain ⟨c, hf, hs⟩ := hseg
    rw [runSeq_cons] at he
    obtain ⟨u, hu, he'⟩ := Option.bind_eq_some_iff.mp he
    rw [← hpc] at hf
    have hi : ∀ l, i = .call l → ¬ avoid l := by
      rintro l rfl
      exact absurd hu (Option.some_ne_none u).symm
    refine until_instr hR hP hf hi (step_of_exec adr hu c) ?_
    have hu' : runSeq adr is { u with pc := c } = some { t with pc := c } := by
      rw [runSeq_pc, he']
      rfl
    exact ih hs rfl hu' h

theorem must_instr (hR : Driven F adr R) {s t : State V} {i : Instr C L} {n : Word}
    (hf : F s.pc = some (i, n)) (he : step adr i n s = some t) (h : Must R Q t) : Must R Q s :=
  until_instr hR (passes_true fun _ => False) hf (fun _ _ => id) he h

theorem must_run (hR : Driven F adr R) {is : List (Instr C L)} {a b : Word}
    (hseg : Seg F adr a (code is) b) {s t : State V} (hpc : s.pc = a)
    (he : runSeq adr is s = some t) (h : Must R Q { t with pc := b }) : Must R Q s :=
  until_run hR (passes_true fun _ => False) hseg hpc he h

end

end X86
