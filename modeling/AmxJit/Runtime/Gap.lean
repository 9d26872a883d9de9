import AmxJit.Runtime.Existence

/-!
# The cells that are written on the way into a function

The checks of `Exec` let through any AMX with `hea < stk`; the helper then writes the size of the
parameters and the return address below STK.

* `freeGap`        the AMX memory between the heap and the stack;
* `Fresh`          a function at its first instruction: its parameters, and what has not been written;
* `start_in_gap_iff`   no cell outside the gap is written exactly if the gap has room for two.
-/

set_option linter.constructorNameAsVariable false

namespace AmxJit
open X86 Trans Reg

namespace Env

/-- the free memory between the heap and the stack -/
def freeGap (v : Vars) : Set Word :=
  bytes (dataBase v + v.amx.hea) (v.amx.stk - v.amx.hea).toNat

/-- A function has been entered: the size of its parameters is at STK + 4, they follow, and AMX
memory is as before outside the gap. -/
structure Fresh (env : Env) (u t : Machine) : Prop where
  stk : t.esp = dataBase u.vars + u.vars.amx.stk - 8
  params : t.mem.read32 (t.esp + 4) = u.vars.amx.paramcount * 4
  args : Set.EqOn t.mem u.mem (env.amxMem ∩ (below (dataBase u.vars + u.vars.amx.stk) 8)ᶜ)
  free : Set.EqOn t.mem u.mem (env.amxMem ∩ (freeGap u.vars)ᶜ)

section
variable {env : Env} {X : Machine → Machine → Prop} {u t : Machine} {p : Word}

/-- the call is one for any contents of AMX memory -/
theorem Entry.memory (hu : Entry env u) {m : Mem} (hm : Set.EqOn m u.mem env.amxMemᶜ) :
    Entry env { u with mem := m } ∧ m.read32 (u.esp + 4) = u.mem.read32 (u.esp + 4) := by
  have h60 : Mode.start.depth.toNat = 64 := rfl
  have hframe : bytes u.esp 12 ⊆ env.amxMemᶜ := by
    have hb := (frame_upTo hu .start).1.trans (upTo_amxMem hu .start)
    refine Set.Subset.trans ?_ hb
    refine bytes_bytes ?_
    rw [sub_sub_cancel, h60]
  have hword {v : Word} (hv : v.toNat + 4 ≤ 12) : m.read32 (u.esp + v) = u.mem.read32 (u.esp + v) :=
    read32_at (hm.mono hframe) (add_sub_cancel_left _ v) hv
  have htop : m.read32 u.esp = u.mem.read32 u.esp :=
    EqOn.read32 (hm.mono hframe) (bytes_mono (by omega))
  have hret : ({ u with mem := m } : Machine).top = u.top := htop
  refine ⟨⟨hu.pc, ?_, ?_, hu.room, hu.args, ?_, hu.amx, hu.callback, hu.stack⟩, hword (by decide)⟩
  · rw [hret]
    exact hu.ret
  · rw [hret]
    exact hu.ret_ne
  · show m.read32 (u.esp + 8) = 0 ∨ Disjoint (bytes (m.read32 (u.esp + 8)) 4) _
    rw [hword (by decide)]
    exact hu.retval

/-- the two cells below STK -/
theorem started_cells (u : Machine) :
    bytes (startEsp u - 4) 8 = below (dataBase u.vars + u.vars.amx.stk) 8 := by
  have he : startEsp u - 4 = dataBase u.vars + u.vars.amx.stk - 8 := by
    unfold startEsp
    rw [add_comm, ← add_sub_assoc]
    exact sub_sub_lit _ (by decide)
  rw [he]
  ext a
  have h1 : (1 : Word).toNat = 1 := rfl
  have h8 : (8 : Word).toNat = 8 := rfl
  rw [mem_bytes, mem_below]
  simp only [BitVec.toNat_sub, BitVec.toNat_add, h1, h8]
  omega

/-- the stack of `Exec` is not AMX memory -/
theorem Entry.stack_below (hu : Entry env u) : below u.esp env.need ⊆ env.amxMemᶜ := by
  obtain ⟨h1, h2⟩ := hu.room
  exact (below_bytes h1 h2).trans (Set.subset_compl_iff_disjoint_left.mpr env.stack_sep)

/-- all but the last condition hold of any call -/
theorem Started.fresh (hu : Entry env u) (ht : Started env u p t)
    (hfree : Set.EqOn t.mem u.mem (env.amxMem ∩ (freeGap u.vars)ᶜ)) : Fresh env u t := by
  have he : t.esp = dataBase u.vars + u.vars.amx.stk - 8 := by
    rw [ht.esp]
    unfold startEsp
    rw [add_comm, ← add_sub_assoc]
    exact sub_sub_lit _ (by decide)
  refine ⟨he, ?_, ht.mem.mono ?_, hfree⟩
  · rw [ht.esp, BitVec.sub_add_cancel]
    exact ht.params
  · rw [← started_cells]
    rintro a ⟨ha, ha'⟩ (h | h)
    · exact hu.stack_below h ha
    · exact ha' h

theorem fresh_of_gap (hu : Entry env u) (ht : Started env u p t)
    (hgap : 8 ≤ (u.vars.amx.stk - u.vars.amx.hea).toNat) : Fresh env u t := by
  refine ht.fresh hu (ht.mem.mono ?_)
  rintro a ⟨ha, ha'⟩ (h | h)
  · exact hu.stack_below h ha
  · refine ha' ?_
    rw [started_cells] at h
    have hlast : (dataBase u.vars + u.vars.amx.stk) - (dataBase u.vars + u.vars.amx.hea) =
        u.vars.amx.stk - u.vars.amx.hea := add_sub_add_left_eq_sub _ _ _
    refine below_bytes ?_ ?_ h
    · rw [hlast]
      exact hgap
    · rw [hlast]

/-- the lower of the two cells does not lie in a gap of less than 8 bytes -/
theorem startEsp_outside (u : Machine) (hgap : ¬ 8 ≤ (u.vars.amx.stk - u.vars.amx.hea).toNat) :
    startEsp u - 4 ∉ freeGap u.vars := by
  intro h
  have he : startEsp u - 4 - (dataBase u.vars + u.vars.amx.hea) =
      u.vars.amx.stk - u.vars.amx.hea - 8 := by
    unfold startEsp
    rw [add_comm (u.vars.amx.stk - 4), add_sub_assoc, add_sub_add_left_eq_sub,
      sub_sub_lit u.vars.amx.stk (c := 8) (by decide), sub_right_comm]
  have h' : (startEsp u - 4 - (dataBase u.vars + u.vars.amx.hea)).toNat <
      (u.vars.amx.stk - u.vars.amx.hea).toNat := h
  have h8 : (8 : Word).toNat = 8 := rfl
  rw [he, BitVec.toNat_sub, h8] at h'
  omega

end

/-- **Entering a function writes to free memory only**, whatever AMX memory holds, exactly if there
is room for two cells. -/
theorem start_in_gap_iff (env : Env) (C : Machine → Prop) (n : Nat) (u : Machine)
    (hu : Entry env u) (hcheck : check u.vars.amx = none) (hno : ¬ Continues env u)
    (h0 : env.jit.entryAddress u ≠ 0) :
    (∀ m, Set.EqOn m u.mem env.amxMemᶜ → Must (level env C n) (fun t =>
        Started env { u with mem := m }
          (getJITInstrPtr env.jit.instrTable (env.jit.entryAddress u)) t ∧
        Fresh env { u with mem := m } t) { u with mem := m }) ↔
      8 ≤ (u.vars.amx.stk - u.vars.amx.hea).toNat := by
  obtain ⟨X, hX, -⟩ := @level_calls env C n
  rw [hX]
  constructor
  · intro h
    by_contra hgap
    -- a heap whose byte below the gap is not the one of the return address
    obtain ⟨ret, hret⟩ : ∃ ret, env.jit.image.addr .callReturn = some ret := by
      obtain ⟨t, -, ht, -⟩ := (h u.mem fun _ _ => rfl).run
      exact ⟨_, ht.ret⟩
    have hin : startEsp u - 4 ∈ env.amxMem := start_amxMem hu (by
      rw [mem_bytes, BitVec.sub_self]
      decide)
    let m : Mem := fun a => if a = startEsp u - 4 then ~~~(ret.extractLsb' 0 8) else u.mem a
    have hm : Set.EqOn m u.mem env.amxMemᶜ := by
      intro a ha
      refine if_neg fun he => ha ?_
      rw [he]
      exact hin
    obtain ⟨t, -, ht, hfresh⟩ := (h m hm).run
    have hbyte : t.mem (startEsp u - 4) = m (startEsp u - 4) :=
      hfresh.free ⟨hin, startEsp_outside u hgap⟩
    have htop : t.mem.read32 (startEsp u - 4) = ret := by
      have h1 := hret.symm.trans ht.ret
      have h2 : t.top = t.mem.read32 (startEsp u - 4) := congrArg t.mem.read32 ht.esp
      exact ((Option.some.inj h1).trans h2).symm
    have hlow : t.mem (startEsp u - 4) = ret.extractLsb' 0 8 := by
      rw [← htop]
      exact (read32_low _ _).symm
    have hne (b : Byte) : b ≠ ~~~b := by
      decide +revert
    rw [hlow, show m (startEsp u - 4) = ~~~(ret.extractLsb' 0 8) from if_pos rfl] at hbyte
    exact hne _ hbyte
  · intro hgap m hm
    obtain ⟨hu', hindex⟩ := hu.memory hm
    have haddr : env.jit.entryAddress { u with mem := m } = env.jit.entryAddress u :=
      congrArg env.jit.amx.getPublicAddress hindex
    have hno' : ¬ Continues env { u with mem := m } := fun hc => hno ⟨hc.1, hindex.symm.trans hc.2⟩
    refine Until.mono (P := env.Plain) ?_ (fun _ _ => trivial) fun _ => id
    refine until_exec (env.drives X) hu' ?_ ?_ ?_ ?_
    · intro error t hc _
      have hc' : check u.vars.amx = some error := hc
      rw [hcheck] at hc'
      exact absurd hc' (by simp)
    · intro _ _ hz
      rw [haddr] at hz
      exact absurd hz h0
    · intro _ _ _ t ht
      rw [haddr] at ht
      exact .now ⟨ht, fresh_of_gap hu' ht hgap⟩
    · exact fun _ hc => absurd hc hno'

/-- A gap of one cell: the return address is written over the last heap cell. -/
theorem start_below_gap :
    let u := sampleEntry 2 0 { sampleProgram.amx with hea := 252 }
    Entry sampleEnv u ∧ check u.vars.amx = none ∧ sampleEnv.jit.entryAddress u = 32 ∧
      ∃ t, Relation.ReflTransGen (level sampleEnv (fun _ => True) 0) u t ∧
        Started sampleEnv u 33207 t ∧ 0x180F8 ∈ sampleEnv.amxMem ∧ 0x180F8 ∉ freeGap u.vars ∧
        u.mem.read32 0x180F8 = 0 ∧ t.mem.read32 0x180F8 = 32998 := by
  intro u
  have hu : Entry sampleEnv u := sampleEntry_entry (.inl rfl) rfl rfl rfl
  have hcheck : check u.vars.amx = none := by decide
  have haddr : sampleJit.entryAddress u = 32 := by decide +kernel
  have hp : sampleJit.native (sampleJit.entryAddress u) = some 33207 := by
    rw [haddr]
    decide +kernel
  have h0 : sampleJit.entryAddress u ≠ 0 := by
    rw [haddr]
    decide
  have hno : ¬ Continues sampleEnv u := fun h => absurd h.2 (by decide)
  obtain ⟨t, hrun, ht⟩ := start_run (X := fun _ _ => False) hu hcheck hno h0 hp
  have hret : sampleJit.image.addr .callReturn = some 32998 := by decide +kernel
  have htop : t.mem.read32 t.esp = 32998 := Option.some.inj (ht.ret.symm.trans hret)
  have hesp : t.esp = 0x180F8 := by
    rw [ht.esp]
    decide
  rw [hesp] at htop
  refine ⟨hu, hcheck, haddr, t, hrun, ht, ?_, ?_, ?_, htop⟩
  · show (0x180F8 - 0x10000 : Word).toNat < 0x10000
    decide
  · show ¬ (0x180F8 - (0x18000 + 252) : Word).toNat < (256 - 252 : Word).toNat
    decide
  · decide

/-- a gap of 128 bytes -/
theorem start_in_gap_sample : let u := sampleEntry 2 0 sampleProgram.amx
    Must (level sampleEnv (fun _ => True) 0) (fun t => t.mem.read32 (t.esp + 4) = 0 ∧
      Set.EqOn t.mem u.mem (sampleEnv.amxMem ∩ (freeGap u.vars)ᶜ)) u := by
  intro u
  have hu : Entry sampleEnv u := sampleEntry_entry (.inl rfl) rfl rfl rfl
  have h := (start_in_gap_iff sampleEnv (fun _ => True) 0 u hu (by decide)
    (fun h => absurd h.2 (by decide)) (by decide +kernel)).mpr (by decide)
  exact (h u.mem fun _ _ => rfl).imp fun t ht => ⟨ht.2.params, ht.2.free⟩

end Env

end AmxJit
