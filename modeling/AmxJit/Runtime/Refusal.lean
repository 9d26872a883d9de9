import AmxJit.Runtime.Existence

/-!
# When `Exec` refuses to run

* `refusal u`       the error with which `Exec` refuses, by the conditions in their order;
* `Called`          a call of `Exec`, whatever is in the AMX structure;
* `Untouched`       what a refusal leaves as it was;
* `exec_refused`    a refused call returns that error and changes nothing else; any other call comes
                    to the helper that enters the script;
* `Unaltered`       the header and the table of public functions are those that have been compiled:
                    `GetPublicAddress` of the AMX of the call decides.
-/

set_option linter.constructorNameAsVariable false

namespace AmxJit
open X86 Trans Reg

namespace Env

instance (env : Env) (u : Machine) : Decidable (Continues env u) :=
  inferInstanceAs (Decidable (_ ∧ _))

/-- the error with which `Exec` refuses to run -/
def refusal (env : Env) (u : Machine) : Option Word :=
  match check u.vars.amx with
  | some error => some error
  | none =>
    if ¬ Continues env u ∧ env.jit.entryAddress u = 0 then some AMX_ERR_INDEX else none

/-- A call of `Exec`, at its first instruction.  Of the AMX structure nothing is known. -/
structure Called (env : Env) (u : Machine) : Prop where
  pc : env.jit.image.addr .exec = some u.pc
  ret : env.HostAddr u.top
  room : env.Room u.esp env.need
  retval : let r := u.mem.read32 (u.esp + 8)
    r = 0 ∨ Disjoint (bytes r 4) (below (u.esp + 12) (env.need + 12))
  amx : u.vars.rib.amx = u.vars.amxPtr

/-- The error code is all that `Exec` has changed outside its stack. -/
structure Untouched (env : Env) (u v : Machine) : Prop where
  rib : v.vars.rib = u.vars.rib
  amx : v.vars.amx = { u.vars.amx with error := v.vars.amx.error }
  hdr : v.vars.hdr = u.vars.hdr
  mem : Set.EqOn v.mem u.mem env.amxMem
  retval : let r := u.mem.read32 (u.esp + 8)
    r ≠ 0 → v.mem.read32 r = u.mem.read32 r

section
variable {env : Env} {X : Machine → Machine → Prop} {u v : Machine} {error : Word}

theorem Rejected.untouched (hu : Called env u) (h : Rejected env u error v) : Untouched env u v := by
  have hstack : below u.esp env.need ⊆ env.amxMemᶜ := by
    obtain ⟨h1, h2⟩ := hu.room
    exact (below_bytes h1 h2).trans (Set.subset_compl_iff_disjoint_left.mpr env.stack_sep)
  have hmem : Set.EqOn v.mem u.mem env.amxMem :=
    h.mem.mono (Set.subset_compl_comm.mp hstack)
  have hretval : u.mem.read32 (u.esp + 8) ≠ 0 →
      v.mem.read32 (u.mem.read32 (u.esp + 8)) = u.mem.read32 (u.mem.read32 (u.esp + 8)) := by
    intro h0
    have hd := hu.retval.resolve_left h0
    refine EqOn.read32 h.mem (Set.subset_compl_iff_disjoint_right.mpr ?_)
    exact Set.disjoint_of_subset_right (below_add (le_refl _)) hd
  rcases h.vars with hv | hv
  · exact ⟨by rw [hv], by rw [hv], by rw [hv], hmem, hretval⟩
  · exact ⟨by rw [hv], by rw [hv], by rw [hv], hmem, hretval⟩

theorem Entry.called (hu : Entry env u) : Called env u :=
  ⟨hu.pc, hu.ret, hu.room, hu.retval, hu.amx⟩

/-- the conditions decide between the early returns and the helper -/
theorem until_refusal (hu : Called env u) :
    Until (Step env X) env.Plain (fun t => (∃ error, refusal env u = some error ∧ Rejected env u error t) ∨
      refusal env u = none ∧ ∃ k, AtHelper env u k t) u := by
  refine until_enter (env.drives X) hu.pc hu.amx (fun error t hc ht => ?_) (fun hc hn h0 t ht => ?_)
    (fun hc hn h0 t ht _ => ?_) fun hc hs t ht => ?_
  · refine .now (.inl ⟨error, ?_, ht⟩)
    unfold refusal
    rw [hc]
  · refine .now (.inl ⟨AMX_ERR_INDEX, ?_, ht⟩)
    unfold refusal
    rw [hc]
    exact if_pos ⟨hn, h0⟩
  · refine .now (.inr ⟨?_, .start, ht⟩)
    unfold refusal
    rw [hc]
    exact if_neg fun h => h0 h.2
  · refine .now (.inr ⟨?_, .continue', ht⟩)
    unfold refusal
    rw [hc]
    exact if_neg fun h => h.1 hs

end

/-- **A refused `Exec` returns its error and changes nothing else**, and a call that is not refused
gets past the checks. -/
theorem exec_refused (env : Env) (C : Machine → Prop) (n : Nat) (u : Machine) (hu : Called env u) :
    (∀ error, refusal env u = some error → (∃ v, Exec (level env C n) u v) ∧
      ∀ v, Exec (level env C n) u v → v.eax = error ∧ Untouched env u v) ∧
    (refusal env u = none → Must (level env C n) (fun t => ∃ k, AtHelper env u k t) u) := by
  obtain ⟨X, hX, -⟩ := @level_calls env C n
  rw [hX]
  have huntil := until_refusal (X := X) hu
  constructor
  · intro error herror
    have hreject : Until (Step env X) env.Plain (Rejected env u error) u := by
      refine huntil.imp fun t ht => ?_
      rcases ht with ⟨error', he, ht⟩ | ⟨he, -⟩
      · rw [herror] at he
        cases he
        exact ht
      · rw [herror] at he
        exact absurd he (by simp)
    have hterminal {t : Machine} (ht : t.pc = u.top) : Terminal (Step env X) t :=
      terminal_top hu.ret ht
    constructor
    · obtain ⟨v, hv, hr⟩ := hreject.run
      exact ⟨v, hv, hr.pc⟩
    · intro v hv
      have hr := hreject.ends hv.1 (hterminal hv.2) fun t ht => hterminal ht.pc
      exact ⟨hr.eax, hr.untouched hu⟩
  · intro hnone
    refine huntil.mono (fun _ _ => trivial) fun t ht => ?_
    rcases ht with ⟨error, he, -⟩ | ⟨-, ht⟩
    · rw [hnone] at he
      exact absurd he (by simp)
    · exact ht

/-- The heap ends at the stack pointer. -/
theorem exec_refused_full :
    let u := sampleEntry 0 0x300000 { sampleProgram.amx with hea := 256 }
    ∃ v, Exec (level sampleEnv (fun _ => True) 0) u v ∧ v.eax = AMX_ERR_STACKERR ∧
      v.vars.amx.stk = 256 := by
  intro u
  have hu : Entry sampleEnv u := sampleEntry_entry (.inr rfl) rfl rfl rfl
  have hrefusal : refusal sampleEnv u = some AMX_ERR_STACKERR := rfl
  obtain ⟨⟨v, hv⟩, hall⟩ := (exec_refused sampleEnv (fun _ => True) 0 u hu.called).1 _ hrefusal
  obtain ⟨heax, hun⟩ := hall v hv
  exact ⟨v, hv, heax, by rw [hun.amx]; rfl⟩

/-! ## the AMX of the call -/

/-- the AMX as the call `u` finds it -/
def amxRef (u : Machine) : AmxRef := ⟨u.vars.amx, u.vars.hdr, u.mem⟩

/-- The header and the table of public functions are those that have been compiled. -/
structure Unaltered (jit : Jit) (u : Machine) : Prop where
  base : u.vars.amx.base = jit.amx.amx.base
  header : u.vars.hdr = jit.amx.header
  publics : ∀ i : Word, 0 ≤ i.toInt → i.toInt < jit.amx.numPublics →
    u.mem.read32 (jit.amx.publicsAt i) = jit.amx.mem.read32 (jit.amx.publicsAt i)

theorem Unaltered.entryAddress {jit : Jit} {u : Machine} (h : Unaltered jit u) :
    jit.entryAddress u = (amxRef u).getPublicAddress (u.mem.read32 (u.esp + 4)) := by
  have hheader : (amxRef u).header = jit.amx.header := h.header
  have hnum : (amxRef u).numPublics = jit.amx.numPublics := by
    unfold AmxRef.numPublics
    rw [hheader]
  have hat (i : Word) : (amxRef u).publicsAt i = jit.amx.publicsAt i := by
    show u.vars.hdr.publics + u.vars.amx.base + 8 * i = _
    rw [h.header, h.base]
    rfl
  unfold Jit.entryAddress AmxRef.getPublicAddress
  rw [hheader, hnum, hat]
  generalize u.mem.read32 (u.esp + 4) = index
  by_cases hi : 0 ≤ index.toInt ∧ index.toInt < jit.amx.numPublics
  · rw [if_pos hi, if_pos hi, ← h.publics index hi.1 hi.2]
    rfl
  · rw [if_neg hi, if_neg hi]

example (index retval : Word) : Unaltered sampleJit (sampleEntry index retval sampleProgram.amx) := by
  refine ⟨rfl, rfl, fun i h0 h1 => ?_⟩
  have hi : i = 0 ∨ i = 1 ∨ i = 2 ∨ i = 3 ∨ i = 4 := by
    have h5 : i.toInt < 5 := h1
    rw [BitVec.toInt_eq_toNat_cond] at h0 h5
    split at h5
    · bv_omega
    · omega
  have hsep : Sep 0x180008 (sampleJit.amx.publicsAt i) ∧ Sep 0x180004 (sampleJit.amx.publicsAt i) ∧
      Sep 0x180000 (sampleJit.amx.publicsAt i) := by
    rcases hi with rfl | rfl | rfl | rfl | rfl <;> decide
  obtain ⟨h8, h4, h0'⟩ := hsep
  show (((sampleProgram.mem.write32 0x180000 (-1)).write32 0x180004 index).write32 0x180008
    retval).read32 _ = _
  rw [read32_write32_sep _ _ _ _ h8, read32_write32_sep _ _ _ _ h4, read32_write32_sep _ _ _ _ h0']
  rfl

end Env

end AmxJit
