import AmxJit.Compiler.Confined

/-!
# Natives of core.inc compiled in place

* `CoreNative`            the natives of core.inc that `EmitIntrinsic` knows, with their results;
* `emitIntrinsic_core`    the table lookup finds the code of the native;
* `yields_core`           the pieces of code, one by one;
* `in_place_result`       the code in place of the call leaves the native's result in PRI, and
                          everything else alone.
-/

namespace AmxJit
open X86 Trans Reg

inductive CoreNative where
  | min | max | clamp | swapchars | numargs | heapspace

namespace CoreNative

def name : CoreNative → String
  | .min => "min"
  | .max => "max"
  | .clamp => "clamp"
  | .swapchars => "swapchars"
  | .numargs => "numargs"
  | .heapspace => "heapspace"

/-- the code of the table `intrinsics` -/
def code (cip : Word) : CoreNative → Buffer
  | .min => min' cip
  | .max => max' cip
  | .clamp => AmxJit.clamp cip
  | .swapchars => asm AmxJit.swapchars
  | .numargs => asm AmxJit.numargs
  | .heapspace => asm AmxJit.heapspace

/-- the `n`-th argument of a call, above their size -/
def arg (s : Machine) (n : Nat) : Word := s.mem.read32 (s.esp + BitVec.ofNat 32 (4 * n))

/-- the value limited to the bounds -/
def limit (x lo hi : Word) : Word :=
  if x.toInt < lo.toInt then lo else if hi.toInt < x.toInt then hi else x

/-- the bytes in the opposite order -/
def reverseBytes (x : Word) : Word :=
  x.extractLsb' 0 8 ++ (x.extractLsb' 8 8 ++ (x.extractLsb' 16 8 ++ x.extractLsb' 24 8))

/-- what the native is for -/
def result (s : Machine) : CoreNative → Word
  | .min => if (arg s 1).toInt ≤ (arg s 2).toInt then arg s 1 else arg s 2
  | .max => if (arg s 2).toInt ≤ (arg s 1).toInt then arg s 1 else arg s 2
  | .clamp => limit (arg s 1) (arg s 2) (arg s 3)
  | .swapchars => reverseBytes (arg s 1)
  | .numargs => BitVec.ofNat 32 ((s.mem.read32 (s.ebp + 8)).toNat / 4)
  | .heapspace => s.esp - s.ebx - s.vars.amx.hea

/-- the bounds of `clamp` are in order -/
def Bounded (s : Machine) : CoreNative → Prop
  | .clamp => (arg s 2).toInt ≤ (arg s 3).toInt
  | _ => True

end CoreNative

/-! ## the table -/

section
variable {r : AmxRef} {a : Word}

/-- two strings of which both are the one at `a` -/
theorem nameIs_inj {xs ys : List Byte} (hx : r.nameIs a xs = true) (hy : r.nameIs a ys = true)
    (hx0 : 0 ∉ xs) (hy0 : 0 ∉ ys) : xs = ys := by
  induction xs generalizing a ys with
  | nil =>
    cases ys with
    | nil => rfl
    | cons y ys =>
      have hend : r.mem a = 0 := beq_iff_eq.mp hx
      obtain ⟨hb, -⟩ := Bool.and_eq_true_iff.mp hy
      have hy' : r.mem a = y := beq_iff_eq.mp hb
      rw [← hy', hend] at hy0
      exact absurd List.mem_cons_self hy0
  | cons x xs ih =>
    obtain ⟨hb, hx'⟩ := Bool.and_eq_true_iff.mp hx
    have hxa : r.mem a = x := beq_iff_eq.mp hb
    cases ys with
    | nil =>
      have hend : r.mem a = 0 := beq_iff_eq.mp hy
      rw [← hxa, hend] at hx0
      exact absurd List.mem_cons_self hx0
    | cons y ys =>
      obtain ⟨hb', hy'⟩ := Bool.and_eq_true_iff.mp hy
      have hya : r.mem a = y := beq_iff_eq.mp hb'
      obtain rfl : x = y := hxa.symm.trans hya
      rw [ih hx' hy' (List.not_mem_of_not_mem_cons hx0) (List.not_mem_of_not_mem_cons hy0)]

/-- the names of the table -/
def intrinsicNames : List String :=
  ["float", "floatabs", "floatadd", "floatsub", "floatmul", "floatdiv", "floatsqroot", "floatcmp",
    "clamp", "heapspace", "numargs", "min", "max", "swapchars"]

theorem intrinsics_names (cip : Word) : (intrinsics cip).map Prod.fst = intrinsicNames := rfl

theorem names_distinct : (intrinsicNames.map nameBytes).Nodup := by decide

theorem names_terminated : ∀ n ∈ intrinsicNames, 0 ∉ nameBytes n := by decide

theorem core_mem (cip : Word) (n : CoreNative) : (n.name, n.code cip) ∈ intrinsics cip := by
  cases n <;> simp [intrinsics, CoreNative.name, CoreNative.code]

/-- the name decides which code is emitted -/
theorem emitIntrinsic_mem {cip : Word} {e : String × Buffer} (hmem : e ∈ intrinsics cip)
    (h : r.nameIs a (nameBytes e.1) = true) : emitIntrinsic r a cip = some e.2 := by
  unfold emitIntrinsic
  cases hfind : (intrinsics cip).find? fun e => r.nameIs a (nameBytes e.1) with
  | none => exact absurd h (List.find?_eq_none.mp hfind _ hmem)
  | some e' =>
    have he := List.mem_of_find?_eq_some hfind
    have hin {e : String × Buffer} (he : e ∈ intrinsics cip) : e.1 ∈ intrinsicNames := by
      rw [← intrinsics_names cip]
      exact List.mem_map_of_mem he
    have hp : r.nameIs a (nameBytes e'.1) = true := by
      have := List.find?_some hfind
      exact this
    have hbytes := nameIs_inj hp h (names_terminated _ (hin he)) (names_terminated _ (hin hmem))
    have hnodup : ((intrinsics cip).map fun e => nameBytes e.1).Nodup := names_distinct
    rw [List.inj_on_of_nodup_map hnodup he hmem hbytes]
    rfl

theorem emitIntrinsic_core {n : CoreNative} (h : r.nameIs a (nameBytes n.name) = true) (cip : Word) :
    emitIntrinsic r a cip = some (n.code cip) :=
  emitIntrinsic_mem (core_mem cip n) h

end

/-! ## the code -/

section
variable {jit : Jit} {T : Word → Prop} {W : Set Word} {s : Machine} {cip e : Word}

/-- PRI, EDX and the flags are new; the code stays between addresses with `T`, and writes to `W`
only -/
def Yields (jit : Jit) (T : Word → Prop) (W : Set Word) (s : Machine) (v e : Word) : Prop :=
  Must (jit.Within T W) (fun t => ∃ (d : Word) (f : Flags),
    t = { s with eax := v, edx := d, flags := f, pc := e }) s

/-- PRI, EDX and the flags are new -/
def Leaves (jit : Jit) (s : Machine) (v e : Word) : Prop :=
  Must jit.Step (fun t => ∃ (d : Word) (f : Flags),
    t = { s with eax := v, edx := d, flags := f, pc := e }) s

theorem left_of {t : Machine} {v : Word}
    (h : t = { s with eax := v, edx := t.edx, flags := t.flags, pc := e }) :
    ∃ (d : Word) (f : Flags), t = { s with eax := v, edx := d, flags := f, pc := e } :=
  ⟨t.edx, t.flags, h⟩

theorem yields_minMax (hT : jit.Closed T) (hs : T s.pc) {keep : Cond}
    (hseg : Seg jit.image.fetch jit.image.addr s.pc (minMax keep cip) e)
    {v : Word} (hv : v = if keep.holds (s.flags.sub (CoreNative.arg s 2) (CoreNative.arg s 1)) then
      CoreNative.arg s 1 else CoreNative.arg s 2) : Yields jit T W s v e := by
  unfold minMax at hseg
  simp only [List.append_assoc] at hseg
  obtain ⟨x1, hpre, hseg⟩ := seg_append.mp hseg
  obtain ⟨x2, hj, hseg⟩ := seg_append.mp hseg
  obtain ⟨x3, hmov, hend⟩ := seg_append.mp hseg
  obtain ⟨hexit, hx⟩ := hend
  obtain rfl : x3 = e := hx
  have h1 := closed_asm hT hs hpre
  have h2 := closed_emit hT h1 hj
  have h3 := closed_asm hT h2 hmov
  let f1 := s.flags.sub (CoreNative.arg s 2) (CoreNative.arg s 1)
  apply Jit.must_line (s := s) hT hs hpre rfl (Jit.inside_quiet rfl)
  intro _
  apply within_branch (s := { s with
    eax := CoreNative.arg s 1, edx := CoreNative.arg s 2, flags := f1, pc := x1 }) hT h1 hj
  · intro hc hjump
    have hc' : keep.holds (s.flags.sub (CoreNative.arg s 2) (CoreNative.arg s 1)) = true := hc
    refine within_jumpsTo h1 hjump hexit h3 (.now (left_of ?_))
    rw [hv, if_pos hc']
  · intro hc _
    have hc' : ¬ keep.holds (s.flags.sub (CoreNative.arg s 2) (CoreNative.arg s 1)) = true :=
      Bool.eq_false_iff.mp hc
    apply Jit.must_line (s := { s with
      eax := CoreNative.arg s 1, edx := CoreNative.arg s 2, flags := f1, pc := x2 }) hT h2 hmov rfl
      (Jit.inside_quiet rfl)
    intro _
    refine .now (left_of ?_)
    rw [hv, if_neg hc']
    rfl

/-- the bounds are in order: the comparisons of the code -/
theorem limit_eq {x lo hi : Word} (hb : lo.toInt ≤ hi.toInt) :
    CoreNative.limit x lo hi =
      if x.toInt ≤ lo.toInt then lo else if hi.toInt ≤ x.toInt then hi else x := by
  unfold CoreNative.limit
  by_cases h1 : x.toInt < lo.toInt
  · rw [if_pos h1, if_pos (by omega)]
  · rw [if_neg h1]
    by_cases h2 : hi.toInt < x.toInt
    · rw [if_pos h2, if_neg (by omega), if_pos (by omega)]
    · rw [if_neg h2]
      by_cases h3 : x.toInt ≤ lo.toInt
      · rw [if_pos h3]
        exact BitVec.eq_of_toInt_eq (by omega)
      · rw [if_neg h3]
        by_cases h4 : hi.toInt ≤ x.toInt
        · rw [if_pos h4]
          exact BitVec.eq_of_toInt_eq (by omega)
        · rw [if_neg h4]

theorem yields_clamp (hT : jit.Closed T) (hs : T s.pc)
    (hseg : Seg jit.image.fetch jit.image.addr s.pc (clamp cip) e)
    (hb : (CoreNative.arg s 2).toInt ≤ (CoreNative.arg s 3).toInt) :
    Yields jit T W s
      (CoreNative.limit (CoreNative.arg s 1) (CoreNative.arg s 2) (CoreNative.arg s 3)) e := by
  rw [limit_eq hb]
  unfold clamp at hseg
  simp only [List.append_assoc] at hseg
  obtain ⟨x1, hlow, hseg⟩ := seg_append.mp hseg
  obtain ⟨x2, hjle, hseg⟩ := seg_append.mp hseg
  obtain ⟨x3, hhigh, hseg⟩ := seg_append.mp hseg
  obtain ⟨x4, hjge, hseg⟩ := seg_append.mp hseg
  obtain ⟨x5, hmov, hend⟩ := seg_append.mp hseg
  obtain ⟨hexit, hx⟩ := hend
  obtain rfl : x5 = e := hx
  have h1 := closed_asm hT hs hlow
  have h2 := closed_emit hT h1 hjle
  have h3 := closed_asm hT h2 hhigh
  have h4 := closed_emit hT h3 hjge
  have h5 := closed_asm hT h4 hmov
  let f1 := s.flags.sub (CoreNative.arg s 1) (CoreNative.arg s 2)
  let f2 := f1.sub (CoreNative.arg s 1) (CoreNative.arg s 3)
  have hrun1 : runSeq jit.image.addr
      ([.mov edx (ptr esp 4), .mov eax (ptr esp 8), .cmp edx eax] : Code) s =
      some { s with eax := CoreNative.arg s 2, edx := CoreNative.arg s 1, flags := f1 } := rfl
  have hrun2 : runSeq jit.image.addr ([.mov eax (ptr esp 12), .cmp edx eax] : Code)
      { s with eax := CoreNative.arg s 2, edx := CoreNative.arg s 1, flags := f1, pc := x2 } =
      some { s with eax := CoreNative.arg s 3, edx := CoreNative.arg s 1, flags := f2, pc := x2 } :=
    rfl
  have hrun3 : runSeq jit.image.addr ([.mov eax edx] : Code)
      { s with eax := CoreNative.arg s 3, edx := CoreNative.arg s 1, flags := f2, pc := x4 } =
      some { s with eax := CoreNative.arg s 1, edx := CoreNative.arg s 1, flags := f2, pc := x4 } :=
    rfl
  have hle : Cond.le.holds f1 = _ := cmp_le s.flags (CoreNative.arg s 1) (CoreNative.arg s 2)
  have hge : Cond.ge.holds f2 = _ := cmp_ge f1 (CoreNative.arg s 1) (CoreNative.arg s 3)
  apply Jit.must_line (s := s) hT hs hlow hrun1 (Jit.inside_quiet rfl)
  intro _
  apply within_branch (s := { s with
    eax := CoreNative.arg s 2, edx := CoreNative.arg s 1, flags := f1, pc := x1 }) hT h1 hjle
  · intro hc hjump
    rw [if_pos (of_decide_eq_true (hle.symm.trans hc))]
    exact within_jumpsTo h1 hjump hexit h5 (.now (left_of rfl))
  intro hc _
  rw [if_neg (of_decide_eq_false (hle.symm.trans hc))]
  apply Jit.must_line (s := { s with
    eax := CoreNative.arg s 2, edx := CoreNative.arg s 1, flags := f1, pc := x2 }) hT h2 hhigh hrun2
    (Jit.inside_quiet rfl)
  intro _
  apply within_branch (s := { s with
    eax := CoreNative.arg s 3, edx := CoreNative.arg s 1, flags := f2, pc := x3 }) hT h3 hjge
  · intro hc' hjump
    rw [if_pos (of_decide_eq_true (hge.symm.trans hc'))]
    exact within_jumpsTo h3 hjump hexit h5 (.now (left_of rfl))
  · intro hc' _
    rw [if_neg (of_decide_eq_false (hge.symm.trans hc'))]
    apply Jit.must_line (s := { s with
      eax := CoreNative.arg s 3, edx := CoreNative.arg s 1, flags := f2, pc := x4 }) hT h4 hmov hrun3
      (Jit.inside_quiet rfl)
    intro _
    exact .now (left_of rfl)

/-- the low bytes exchanged -/
def swapLow (x : Word) : Word := x.extractLsb' 16 16 ++ (x.extractLsb' 0 8 ++ x.extractLsb' 8 8)

theorem swapLow_get (x : Word) (k : Nat) : (swapLow x).getLsbD k =
    if k < 8 then x.getLsbD (k + 8) else if k < 16 then x.getLsbD (k - 8) else x.getLsbD k := by
  unfold swapLow
  simp only [BitVec.getLsbD_append, BitVec.getLsbD_extractLsb']
  by_cases h8 : k < 8
  · rw [if_pos (by omega), if_pos h8, if_pos h8, Nat.add_comm]
    simp [h8]
  · by_cases h16 : k < 16
    · have hk : k - 8 < 8 := by omega
      rw [if_pos h16, if_neg h8, if_neg h8, if_pos h16]
      simp [hk]
    · have hk : 16 + (k - (8 + 8)) = k := by omega
      rw [if_neg h16, if_neg h8, if_neg h16, hk]
      by_cases h32 : k < 32
      · have hk' : k - 16 < 16 := by omega
        simp [hk']
      · rw [BitVec.getLsbD_of_ge x k (by omega), Bool.and_false]

/-- `xchg ah, al` -/
theorem xchg_eq (x : Word) :
    (x.extractLsb' 16 16 ++ (x.extractLsb' 0 8 ++ x.extractLsb' 0 8) : Word).extractLsb' 8 24 ++
      x.extractLsb' 8 8 = swapLow x := by
  refine BitVec.eq_of_getLsbD_eq fun k hk => ?_
  rw [swapLow_get]
  simp only [BitVec.getLsbD_append, BitVec.getLsbD_extractLsb']
  by_cases h8 : k < 8
  · rw [if_pos h8, if_pos h8]
    simp [h8, Nat.add_comm]
  · rw [if_neg h8, if_neg h8]
    grind

/-- the low bytes exchanged before and after a rotation by two bytes -/
theorem swapLow_rotate (x : Word) :
    swapLow ((swapLow x).rotateRight 16) = CoreNative.reverseBytes x := by
  have hrot (j : Nat) (hj : j < 32) : ((swapLow x).rotateRight 16).getLsbD j =
      (swapLow x).getLsbD (if j < 16 then 16 + j else j - 16) := by
    rw [BitVec.getLsbD_rotateRight]
    by_cases h : j < 16 <;> simp [h]
    omega
  refine BitVec.eq_of_getLsbD_eq fun k hk => ?_
  unfold CoreNative.reverseBytes
  rw [swapLow_get]
  simp only [BitVec.getLsbD_append, BitVec.getLsbD_extractLsb']
  by_cases h8 : k < 8
  · rw [if_pos h8, hrot _ (by omega), swapLow_get]
    grind
  · rw [if_neg h8]
    by_cases h16 : k < 16
    · rw [if_pos h16, hrot _ (by omega), swapLow_get]
      grind
    · rw [if_neg h16, hrot _ (by omega), swapLow_get]
      grind

/-- the straight lines -/
theorem yields_run (hT : jit.Closed T) (hs : T s.pc) {is : Code} {v d : Word} {f : Flags}
    (hseg : Seg jit.image.fetch jit.image.addr s.pc (asm is) e)
    (his : is.any Instr.stores = false)
    (hrun : runSeq jit.image.addr is s = some { s with eax := v, edx := d, flags := f }) :
    Yields jit T W s v e := by
  apply Jit.must_line (s := s) hT hs hseg hrun (Jit.inside_quiet his)
  intro _
  exact .now ⟨d, f, rfl⟩

theorem swapchars_run (adr : Label → Option Word) (s : Machine) :
    ∃ f, runSeq adr swapchars s =
      some { s with eax := CoreNative.reverseBytes (CoreNative.arg s 1), flags := f } := by
  have hmov : exec adr (.mov eax (ptr esp 4) : Instr Cell Label) s =
      some { s with eax := CoreNative.arg s 1 } := rfl
  have hswap (u : Machine) : exec adr (.xchg8 .ah .al : Instr Cell Label) u =
      some { u with eax := swapLow u.eax } := by
    rw [← xchg_eq]
    rfl
  have hror (u : Machine) : ∃ f, exec adr (.ror eax (.imm 16) : Instr Cell Label) u =
      some { u with eax := u.eax.rotateRight 16, flags := f } := by
    have hcount : u.count (.imm 16) = 16 := rfl
    refine ⟨{ u.flags with cf := (u.eax.rotateRight 16).msb }, ?_⟩
    show some (u.doRor eax (u.count (.imm 16))) = _
    rw [hcount]
    rfl
  obtain ⟨f, hf⟩ := hror { s with eax := swapLow (CoreNative.arg s 1) }
  refine ⟨f, ?_⟩
  unfold swapchars
  rw [runSeq_cons, hmov, Option.bind_some, runSeq_cons, hswap, Option.bind_some, runSeq_cons, hf,
    Option.bind_some, runSeq_cons, hswap, Option.bind_some, ← swapLow_rotate]
  rfl

theorem numargs_run (adr : Label → Option Word) (s : Machine) :
    ∃ f, runSeq adr numargs s = some { s with
      eax := BitVec.ofNat 32 ((s.mem.read32 (s.ebp + 8)).toNat / 4), flags := f } := by
  have hdiv (x : Word) : BitVec.ofNat 32 (x.toNat / 4) = x >>> 2 := by
    refine BitVec.eq_of_toNat_eq ?_
    rw [BitVec.toNat_ushiftRight, Nat.shiftRight_eq_div_pow, BitVec.toNat_ofNat]
    exact Nat.mod_eq_of_lt (lt_of_le_of_lt (Nat.div_le_self _ _) x.isLt)
  rw [hdiv]
  exact ⟨_, rfl⟩

theorem heapspace_run (adr : Label → Option Word) (s : Machine)
    (hamx : s.vars.rib.amx = s.vars.amxPtr) :
    ∃ d f, runSeq adr heapspace s = some { s with
      eax := s.esp - s.ebx - s.vars.amx.hea, edx := d, flags := f } := by
  have hload : State.load { s with edx := s.vars.rib.amx } (amxField edx .hea) =
      some s.vars.amx.hea := State.load_field _ _ _ hamx
  refine ⟨s.vars.amx.hea, (s.flags.sub s.esp s.ebx).sub (s.esp - s.ebx) s.vars.amx.hea, ?_⟩
  show (exec adr (.mov edx (amxField edx .hea) : Instr Cell Label)
    { s with edx := s.vars.rib.amx }).bind
    (runSeq adr [.mov eax esp, .sub eax ebx, .sub eax edx]) = _
  show ((State.load { s with edx := s.vars.rib.amx } (amxField edx .hea)).bind _).bind _ = _
  rw [hload]
  rfl

theorem yields_core (hT : jit.Closed T) (hs : T s.pc) (n : CoreNative)
    (hseg : Seg jit.image.fetch jit.image.addr s.pc (n.code cip) e)
    (hamx : s.vars.rib.amx = s.vars.amxPtr) (hb : n.Bounded s) :
    Yields jit T W s (n.result s) e := by
  cases n with
  | min =>
    have hge := cmp_ge s.flags (CoreNative.arg s 2) (CoreNative.arg s 1)
    apply yields_minMax hT hs hseg
    rw [hge]
    show (if _ then _ else _) = _
    simp only [decide_eq_true_eq]
  | max =>
    have hle := cmp_le s.flags (CoreNative.arg s 2) (CoreNative.arg s 1)
    apply yields_minMax hT hs hseg
    rw [hle]
    show (if _ then _ else _) = _
    simp only [decide_eq_true_eq]
  | clamp => exact yields_clamp hT hs hseg hb
  | swapchars =>
    obtain ⟨f, hrun⟩ := swapchars_run jit.image.addr s
    exact yields_run hT hs hseg rfl hrun
  | numargs =>
    obtain ⟨f, hrun⟩ := numargs_run jit.image.addr s
    exact yields_run hT hs hseg rfl hrun
  | heapspace =>
    obtain ⟨d, f, hrun⟩ := heapspace_run jit.image.addr s hamx
    exact yields_run hT hs hseg rfl hrun

theorem leaves_core (n : CoreNative) (hseg : Seg jit.image.fetch jit.image.addr s.pc (n.code cip) e)
    (hamx : s.vars.rib.amx = s.vars.amxPtr) (hb : n.Bounded s) : Leaves jit s (n.result s) e :=
  Jit.must_of_within (W := Set.univ) (yields_core jit.closed_true trivial n hseg hamx hb)

/-- the address of the name of the native that SYSREQ.C or SYSREQ.D calls -/
def calledName (r : AmxRef) (i : Instruction) : Option Word :=
  match i.opcode with
  | .sysreqC => some (r.getNativeName i.operand)
  | .sysreqD => some (r.getNativeName (r.findNative i.operand))
  | _ => none

theorem compileInstr_intrinsic {i : Instruction} {b b' : Buffer} {name : Word}
    (hcall : calledName jit.amx i = some name)
    (hcode : emitIntrinsic jit.amx name i.address = some b')
    (hb : compileInstr jit.compiler jit.amx i = some b) : b = b' := by
  unfold calledName at hcall
  unfold compileInstr controlCode at hb
  cases hop : i.opcode with
  | sysreqC =>
    rw [hop] at hcall hb
    obtain rfl : jit.amx.getNativeName i.operand = name := Option.some.inj hcall
    have hb' : emitSysreqC jit.compiler jit.amx i.address i.operand = some b := hb
    unfold emitSysreqC at hb'
    dsimp only at hb'
    rw [hcode] at hb'
    by_cases h0 : jit.amx.getNativeName i.operand = 0
    · rw [if_pos h0] at hb'
      exact absurd hb' (by simp)
    · rw [if_neg h0] at hb'
      exact (Option.some.inj hb').symm
  | sysreqD =>
    rw [hop] at hcall hb
    obtain rfl : jit.amx.getNativeName (jit.amx.findNative i.operand) = name := Option.some.inj hcall
    have hb' : emitSysreqD jit.amx i.address i.operand = some b := hb
    unfold emitSysreqD at hb'
    dsimp only at hb'
    rw [hcode] at hb'
    by_cases h0 : jit.amx.getNativeName (jit.amx.findNative i.operand) = 0
    · rw [if_pos h0] at hb'
      exact absurd hb' (by simp)
    · rw [if_neg h0] at hb'
      exact (Option.some.inj hb').symm
  | _ =>
    rw [hop] at hcall
    exact absurd hcall (by simp)

theorem compileInstr_core {i : Instruction} {b : Buffer} {name : Word} {n : CoreNative}
    (hcall : calledName jit.amx i = some name) (hname : jit.amx.nameIs name (nameBytes n.name) = true)
    (hb : compileInstr jit.compiler jit.amx i = some b) : b = n.code i.address :=
  compileInstr_intrinsic hcall (emitIntrinsic_core hname i.address) hb

/-- **The code in place of a native leaves the native's result in PRI**, EDX and the flags aside
nothing else is changed, and the next instruction comes next. -/
theorem in_place_result (jit : Jit) (i : Instruction) (hi : i ∈ jit.instrs) (name : Word)
    (hcall : calledName jit.amx i = some name) (n : CoreNative)
    (hname : jit.amx.nameIs name (nameBytes n.name) = true) (s : Machine)
    (hpc : jit.native i.address = some s.pc) (hamx : s.vars.rib.amx = s.vars.amxPtr)
    (hb : n.Bounded s) :
    ∃ e, (∀ j ∈ jit.instrs, j.address = i.next → jit.At j e) ∧
      Must jit.Step (fun t => ∃ (d : Word) (f : Flags),
        t = { s with eax := n.result s, edx := d, flags := f, pc := e }) s := by
  obtain ⟨b, e, hcode, hseg, hnext⟩ := Jit.code_at hi hpc
  rw [compileInstr_core hcall hname hcode] at hseg
  exact ⟨e, hnext, leaves_core n hseg hamx hb⟩

end

/-- `SYSREQ.C 0; NOP` with a native 0 of the name `min` -/
def minProgram : AmxRef :=
  { AmxRef.ofCells [123, 0, 134, 0, 20, 0x006e696d] with
    header := ⟨8, 0, 12, 0, 256, 0, 12, 12, 20⟩ }

theorem minProgram_compiles :
    (compile plainCompiler minProgram fun _ _ => 1).isSome = true := by decide +kernel

def minJit : Jit :=
  .load plainCompiler minProgram 0x8000 minProgram_compiles (by decide +kernel)

theorem minJit_instrs : minJit.instrs = [⟨0, .sysreqC, [0]⟩, ⟨8, .nop, []⟩] := by decide +kernel

/-- `min(5, -1)` -/
theorem in_place_min :
    let s := { minProgram.machine 4096 33074 with mem := fun a =>
      if a = 4096 + 256 + 4 then 5 else if 4096 + 256 + 8 ≤ a ∧ a < 4096 + 256 + 12 then -1 else 0 }
    ∃ e, Must minJit.Step (fun t => ∃ (d : Word) (f : Flags),
      t = { s with eax := -1, edx := d, flags := f, pc := e }) s := by
  intro s
  have hi : (⟨0, .sysreqC, [0]⟩ : Instruction) ∈ minJit.instrs := by
    rw [minJit_instrs]
    simp
  have hv : CoreNative.result s .min = -1 := by decide
  obtain ⟨e, -, hmust⟩ := in_place_result minJit ⟨0, .sysreqC, [0]⟩ hi 20 (by decide) .min (by decide)
    s (by decide +kernel) rfl trivial
  rw [hv] at hmust
  exact ⟨e, hmust⟩

end AmxJit
