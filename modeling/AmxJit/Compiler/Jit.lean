import AmxJit.Compiler.Layout

/-!
# A compiled program at its load address

* `Laid`             how the instructions lie in the buffer, one behind the other, with the entries
                     of `instr_map_`; the result of `compile` is laid out that way
                     (`compile_spec`), and binds no label twice (`Jit.labels_nodup`);
* `Jit`              a compiled program in memory; `Jit.image` is its code, `Jit.instrTable` the
                     table that `Compile` fills in;
* `Jit.runtime_seg`, `Laid.seg`   its pieces as segments;
* `Jit.native`       the native address of an instruction (`Jit.native_mem`).
-/

namespace AmxJit
open X86

section
variable (c : CompilerImpl) (r : AmxRef) (enc : Nat → Instr Cell Label → Nat)

/-- The instructions lie one behind the other from the end of `buf` to the end of `items`; `map`
are their entries. -/
def Laid : List Instruction → Buffer → Buffer → List (Word × Nat) → Prop
  | [], buf, items, map => items = buf ∧ map = []
  | i :: is, buf, items, map =>
    ∃ b map', compileInstr c r i = some b ∧
      map = (i.address, endOff enc 0 (buf ++ instrLabel i)) :: map' ∧
      Laid is (buf ++ instrLabel i ++ b) items map'

end

section
variable {c : CompilerImpl} {r : AmxRef} {enc : Nat → Instr Cell Label → Nat}

theorem mapInsert_last {address : Word} {offset : Nat} {map : List (Word × Nat)}
    (h : ∀ e ∈ map, e.1.slt address = true) :
    mapInsert address offset map = map ++ [(address, offset)] := by
  induction map with
  | nil => rfl
  | cons e map ih =>
    obtain ⟨he, hm⟩ := List.forall_mem_cons.mp h
    unfold mapInsert
    have h1 : ¬ address.slt e.1 = true := by
      rw [BitVec.slt, decide_eq_true_iff] at he ⊢
      omega
    have h2 : address ≠ e.1 := by
      rintro rfl
      exact h1 he
    rw [if_neg h1, if_neg h2, ih hm]
    rfl

theorem compileLoop_laid {is : List Instruction} {buf items : Buffer}
    {map map' : List (Word × Nat)} (h : compileLoop c r enc is buf map = some (items, map'))
    (hinc : is.Pairwise fun i j => i.address.slt j.address = true)
    (hlt : ∀ e ∈ map, ∀ i ∈ is, e.1.slt i.address = true) :
    ∃ m, map' = map ++ m ∧ Laid c r enc is buf items m := by
  induction is generalizing buf map with
  | nil =>
    cases h
    exact ⟨[], (List.append_nil _).symm, rfl, rfl⟩
  | cons i is ih =>
    unfold compileLoop at h
    dsimp only at h
    obtain ⟨b, hb, h⟩ := Option.bind_eq_some_iff.mp h
    rw [mapInsert_last fun e he => hlt e he i List.mem_cons_self] at h
    obtain ⟨hi, hinc'⟩ := List.pairwise_cons.mp hinc
    have hlt' : ∀ e ∈ map ++ [(i.address, endOff enc 0 (buf ++ instrLabel i))], ∀ j ∈ is,
        e.1.slt j.address = true := by
      intro e he j hj
      rcases List.mem_append.mp he with he | he
      · exact hlt e he j (List.mem_cons_of_mem i hj)
      · rw [List.mem_singleton.mp he]
        exact hi j hj
    obtain ⟨m, rfl, hm⟩ := ih h hinc' hlt'
    exact ⟨_, by rw [List.append_assoc]; rfl, b, m, hb, rfl, hm⟩

theorem Laid.items_eq {is : List Instruction} {buf items : Buffer} {map : List (Word × Nat)}
    (h : Laid c r enc is buf items map) : ∃ post, items = buf ++ post := by
  induction is generalizing buf map with
  | nil => exact ⟨[], by rw [h.1, List.append_nil]⟩
  | cons i is ih =>
    obtain ⟨b, m, -, -, h⟩ := h
    obtain ⟨post, hp⟩ := ih h
    exact ⟨instrLabel i ++ b ++ post, by rw [hp]; simp only [List.append_assoc]⟩

theorem Laid.tail {is js : List Instruction} {buf items : Buffer} {map : List (Word × Nat)}
    (h : Laid c r enc (is ++ js) buf items map) :
    ∃ pre m m', map = m ++ m' ∧ Laid c r enc js (buf ++ pre) items m' := by
  induction is generalizing buf map with
  | nil => exact ⟨[], [], map, rfl, by rwa [List.append_nil]⟩
  | cons i is ih =>
    obtain ⟨b, m, -, rfl, h⟩ := h
    obtain ⟨pre, m1, m2, rfl, h'⟩ := ih h
    exact ⟨instrLabel i ++ b ++ pre, _ :: m1, m2, rfl, by simpa only [List.append_assoc] using h'⟩

/-- the addresses of the map are those of the instructions, in order -/
theorem Laid.map_fst {is : List Instruction} {buf items : Buffer} {map : List (Word × Nat)}
    (h : Laid c r enc is buf items map) : map.map Prod.fst = is.map Instruction.address := by
  induction is generalizing buf map with
  | nil => rw [h.2]; rfl
  | cons i is ih =>
    obtain ⟨b, m, -, rfl, h⟩ := h
    rw [List.map_cons, List.map_cons, ih h]

/-- the offsets of the map lie between the ends of the buffers, in order -/
theorem Laid.map_snd {is : List Instruction} {buf items : Buffer} {map : List (Word × Nat)}
    (h : Laid c r enc is buf items map) :
    (∀ e ∈ map, endOff enc 0 buf ≤ e.2 ∧ e.2 ≤ endOff enc 0 items) ∧
      map.Pairwise fun e e' => e.2 ≤ e'.2 := by
  induction is generalizing buf map with
  | nil =>
    rw [h.2]
    exact ⟨by simp, .nil⟩
  | cons i is ih =>
    obtain ⟨b, m, -, rfl, h⟩ := h
    obtain ⟨h1, h2⟩ := ih h
    obtain ⟨post, hp⟩ := h.items_eq
    have hs : endOff enc 0 buf ≤ endOff enc 0 (buf ++ instrLabel i) := by
      rw [endOff_append]
      exact le_endOff _ _ _
    have hb : endOff enc 0 (buf ++ instrLabel i) ≤ endOff enc 0 (buf ++ instrLabel i ++ b) := by
      rw [endOff_append _ _ (buf ++ instrLabel i)]
      exact le_endOff _ _ _
    have he : endOff enc 0 (buf ++ instrLabel i ++ b) ≤ endOff enc 0 items := by
      rw [hp, endOff_append _ _ (buf ++ instrLabel i ++ b)]
      exact le_endOff _ _ _
    constructor
    · intro e hmem
      rcases List.mem_cons.mp hmem with rfl | hmem
      · exact ⟨hs, le_trans hb he⟩
      · obtain ⟨ha, hc⟩ := h1 e hmem
        exact ⟨le_trans (le_trans hs hb) ha, hc⟩
    · exact .cons (fun e hmem => le_trans hb (h1 e hmem).1) h2

theorem Laid.labels {is : List Instruction} {buf items : Buffer} {map : List (Word × Nat)}
    (h : Laid c r enc is buf items map) (hbuf : (labels buf).Nodup)
    (hinc : is.Pairwise fun i j => i.address.slt j.address = true)
    (hnew : ∀ i ∈ is, ∀ n, .cip i.address ∉ X86.labels buf ∧ .here i.address n ∉ X86.labels buf) :
    (X86.labels items).Nodup := by
  induction is generalizing buf map with
  | nil => rwa [h.1]
  | cons i is ih =>
    obtain ⟨b, m, hb, -, h⟩ := h
    obtain ⟨hown, hhere⟩ := compileInstr_labels c r hb
    obtain ⟨hi, hinc'⟩ := List.pairwise_cons.mp hinc
    have hl : X86.labels (buf ++ instrLabel i ++ b) =
        X86.labels buf ++ (.cip i.address :: X86.labels b) := by
      rw [labels_append, labels_append, labels_instrLabel, List.append_assoc]
      rfl
    refine ih h ?_ hinc' fun j hj n => ?_
    · rw [hl, List.nodup_append]
      refine ⟨hbuf, List.nodup_cons.mpr ⟨fun hm => ?_, hown⟩, ?_⟩
      · obtain ⟨n, hn⟩ := hhere _ hm
        exact absurd hn (by simp)
      · rintro l hl1 l' hl2 rfl
        rcases List.mem_cons.mp hl2 with rfl | hl2
        · exact (hnew i List.mem_cons_self 0).1 hl1
        · obtain ⟨n, rfl⟩ := hhere _ hl2
          exact (hnew i List.mem_cons_self n).2 hl1
    · have hne : j.address ≠ i.address := by
        intro he
        have := hi j hj
        rw [he, BitVec.slt, decide_eq_true_iff] at this
        omega
      obtain ⟨h1, h2⟩ := hnew j (List.mem_cons_of_mem i hj) n
      rw [hl]
      constructor
      · simp only [List.mem_append, List.mem_cons, not_or]
        refine ⟨h1, by simpa using hne, fun hm => ?_⟩
        obtain ⟨k, hk⟩ := hhere _ hm
        exact absurd hk (by simp)
      · simp only [List.mem_append, List.mem_cons, not_or]
        refine ⟨h2, by simp, fun hm => ?_⟩
        obtain ⟨k, hk⟩ := hhere _ hm
        exact hne (Label.here.inj hk).1

theorem compile_spec {buf : CodeBuffer} (h : compile c r enc = some buf) :
    ∃ is, sweep c.opcodeTable r (sweepFuel r) 0 = some is ∧ buf.numEntries = is.length ∧
      Laid c r enc is (emitRuntime c buf.numEntries) buf.items buf.instrMap := by
  unfold compile at h
  dsimp only at h
  obtain ⟨is, his, h⟩ := Option.bind_eq_some_iff.mp h
  obtain ⟨⟨items, map⟩, hl, rfl⟩ := Option.map_eq_some_iff.mp h
  obtain ⟨m, rfl, hm⟩ := compileLoop_laid hl (sweep_swept his).increasing (by simp)
  exact ⟨is, his, count_eq_length his, hm⟩

end

/-! ## programs in memory -/

structure InstrTableEntry where
  address : Word
  ptr : Word
  deriving DecidableEq

/-- A compiled program at the address `base`. -/
structure Jit where
  compiler : CompilerImpl
  amx : AmxRef
  enc : Nat → Instr Cell Label → Nat
  base : Word
  buffer : CodeBuffer
  compiled : compile compiler amx enc = some buffer
  enc_pos : ∀ off i, 0 < enc off i
  fits : base.toNat + endOff enc 0 buffer.items < 2^32

namespace Jit
variable (jit : Jit)

/-- the decoded instructions -/
def instrs : List Instruction :=
  (sweep jit.compiler.opcodeTable jit.amx (sweepFuel jit.amx) 0).getD []

theorem sweep_eq :
    sweep jit.compiler.opcodeTable jit.amx (sweepFuel jit.amx) 0 = some jit.instrs := by
  obtain ⟨is, his, -⟩ := compile_spec jit.compiled
  rw [instrs, his, Option.getD_some]

theorem swept : Swept jit.compiler.opcodeTable jit.amx 0 jit.instrs := sweep_swept jit.sweep_eq

/-- the runtime in front of the code -/
def runtime : Buffer := emitRuntime jit.compiler jit.buffer.numEntries

theorem laid : Laid jit.compiler jit.amx jit.enc jit.instrs jit.runtime jit.buffer.items
    jit.buffer.instrMap := by
  obtain ⟨is, his, -, h⟩ := compile_spec jit.compiled
  have : jit.instrs = is := by rw [instrs, his, Option.getD_some]
  rwa [this]

theorem labels_nodup : (labels jit.buffer.items).Nodup := by
  refine jit.laid.labels ?_ jit.swept.increasing fun i _ n => ?_
  · rw [runtime, labels_runtime]
    exact runtimeLabels_nodup _
  · rw [runtime, labels_runtime]
    exact runtimeLabels_fixed _ _ _

def image : Image Cell Label where
  enc := jit.enc
  base := jit.base
  items := jit.buffer.items
  enc_pos := jit.enc_pos
  nodup := jit.labels_nodup
  fits := jit.fits

/-- the entries that `Compile` writes behind the runtime information block -/
def instrTable : List InstrTableEntry :=
  jit.buffer.instrMap.map fun e => ⟨e.1, jit.image.at' e.2⟩

/-- the native address of the instruction at an AMX address -/
def native (address : Word) : Option Word := jit.image.addr (.cip address)

/-- the offset of the first instruction -/
def scriptStart : Nat := endOff jit.enc 0 jit.runtime

theorem runtime_seg : Seg (jit.image.fetchBelow jit.scriptStart) jit.image.addr jit.base
    jit.runtime (jit.image.at' jit.scriptStart) := by
  obtain ⟨post, hp⟩ := jit.laid.items_eq
  have h := jit.image.seg [] jit.runtime post hp
  have hb : jit.image.at' (endOff jit.enc 0 ([] : Buffer)) = jit.base :=
    BitVec.add_zero jit.base
  rw [← hb]
  exact h

end Jit

/-- the code of one instruction as a segment, its padding and label in front -/
theorem Laid.seg {jit : Jit} {i : Instruction} {is : List Instruction} {buf : Buffer}
    {map : List (Word × Nat)}
    (h : Laid jit.compiler jit.amx jit.enc (i :: is) buf jit.buffer.items map) :
    ∃ b map', compileInstr jit.compiler jit.amx i = some b ∧
      Seg jit.image.fetch jit.image.addr (jit.image.at' (endOff jit.enc 0 buf)) (instrLabel i)
        (jit.image.at' (endOff jit.enc 0 (buf ++ instrLabel i))) ∧
      Seg jit.image.fetch jit.image.addr
        (jit.image.at' (endOff jit.enc 0 (buf ++ instrLabel i))) b
        (jit.image.at' (endOff jit.enc 0 (buf ++ instrLabel i ++ b))) ∧
      map = (i.address, endOff jit.enc 0 (buf ++ instrLabel i)) :: map' ∧
      Laid jit.compiler jit.amx jit.enc is (buf ++ instrLabel i ++ b) jit.buffer.items map' := by
  obtain ⟨b, m, hb, hm, h⟩ := h
  obtain ⟨post, hp⟩ := h.items_eq
  refine ⟨b, m, hb, ?_, ?_, hm, h⟩
  · have hs := jit.image.seg buf (instrLabel i) (b ++ post) (by rw [← List.append_assoc]; exact hp)
    exact hs.mono fun x y hx => jit.image.fetchBelow_fetch hx
  · have hs := jit.image.seg (buf ++ instrLabel i) b post hp
    exact hs.mono fun x y hx => jit.image.fetchBelow_fetch hx

theorem seg_instrLabel {F : Word → Option (Instr Cell Label × Word)} {adr : Label → Option Word}
    {i : Instruction} {a s : Word} (h : Seg F adr a (instrLabel i) s) :
    adr (.cip i.address) = some s ∧ (a = s ∨ i.opcode = .proc ∧ F a = some (.nop, s)) := by
  unfold instrLabel at h
  split at h
  · rename_i hp
    obtain ⟨x, hx, hl, rfl⟩ := h
    exact ⟨hl, hx.imp Eq.symm fun hF => ⟨hp, hF⟩⟩
  · obtain ⟨hl, rfl⟩ := h
    exact ⟨hl, Or.inl rfl⟩

/-- the native addresses of laid out instructions are those of the map -/
theorem Laid.native {jit : Jit} {is : List Instruction} {buf : Buffer} {map : List (Word × Nat)}
    (h : Laid jit.compiler jit.amx jit.enc is buf jit.buffer.items map) :
    List.Forall₂ (fun i e => e.1 = i.address ∧
      jit.native i.address = some (jit.image.at' e.2)) is map := by
  induction is generalizing buf map with
  | nil =>
    rw [h.2]
    exact .nil
  | cons i is ih =>
    obtain ⟨b, m, -, hs, -, rfl, h'⟩ := h.seg
    exact .cons ⟨rfl, (seg_instrLabel hs).1⟩ (ih h')

theorem mem_of_forall₂ {α β : Type} {R : α → β → Prop} {as : List α} {bs : List β}
    (h : List.Forall₂ R as bs) : (∀ a ∈ as, ∃ b ∈ bs, R a b) ∧ ∀ b ∈ bs, ∃ a ∈ as, R a b := by
  induction h with
  | nil => simp
  | cons hr _ ih =>
    refine ⟨fun x hx => ?_, fun x hx => ?_⟩
    · rcases List.mem_cons.mp hx with rfl | hx
      · exact ⟨_, List.mem_cons_self, hr⟩
      · obtain ⟨y, hy, h⟩ := ih.1 x hx
        exact ⟨y, List.mem_cons_of_mem _ hy, h⟩
    · rcases List.mem_cons.mp hx with rfl | hx
      · exact ⟨_, List.mem_cons_self, hr⟩
      · obtain ⟨y, hy, h⟩ := ih.2 x hx
        exact ⟨y, List.mem_cons_of_mem _ hy, h⟩

namespace Jit
variable (jit : Jit)

/-- the table has the native address of every instruction -/
theorem native_mem {i : Instruction} (hi : i ∈ jit.instrs) :
    ∃ a, jit.native i.address = some a ∧ ⟨i.address, a⟩ ∈ jit.instrTable := by
  obtain ⟨e, he, h1, h2⟩ := (mem_of_forall₂ jit.laid.native).1 i hi
  refine ⟨_, h2, ?_⟩
  rw [← h1]
  exact List.mem_map_of_mem he

theorem mem_instrTable {e : InstrTableEntry} (he : e ∈ jit.instrTable) :
    ∃ i ∈ jit.instrs, i.address = e.address ∧ jit.native i.address = some e.ptr := by
  obtain ⟨x, hx, rfl⟩ := List.mem_map.mp he
  obtain ⟨i, hi, h1, h2⟩ := (mem_of_forall₂ jit.laid.native).2 x hx
  exact ⟨i, hi, h1.symm, h2⟩

end Jit

end AmxJit
