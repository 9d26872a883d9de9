import AmxJit.Compiler.Emitted
import AmxJit.Runtime.Enter
import AmxJit.Runtime.Jumps

/-!
# Nested calls of `Exec`

* `Returned env u v`   `Exec`, entered in the state `u`, has returned in the state `v`: the caller has
                       its registers, its stack and its runtime information block back;
* `hostRun_kept`       a host function that calls `Exec` keeps the frame of the `Exec` around it;
* `Spot env u`         the states of a run between which only the runtime works; a step from one leads
                       to the next (`spot_step`);
* `exec_returned`      what a call of `Exec` comes to, at any depth of nesting;
* `until_spot`         every state of a run is on the way to a spot.
-/

set_option linter.constructorNameAsVariable false

namespace AmxJit
open X86 Trans Reg

/-! ## the code of the script -/

theorem instrAt_mem {enc : Nat → Instr Cell Label → Nat} {a off n : Nat} {b : Buffer}
    {i : Instr Cell Label} (h : instrAt enc a off b = some (i, n)) : i = .nop ∨ Item.instr i ∈ b := by
  induction b generalizing off with
  | nil => exact absurd h (by simp [instrAt])
  | cons it b ih =>
    have hmono (hi : i = .nop ∨ Item.instr i ∈ b) : i = .nop ∨ Item.instr i ∈ it :: b :=
      hi.imp id fun hm => List.mem_cons_of_mem it hm
    cases it with
    | instr j =>
      rw [instrAt] at h
      split at h
      · cases h
        exact .inr List.mem_cons_self
      · exact hmono (ih h)
    | label l => exact hmono (ih h)
    | align k =>
      rw [instrAt] at h
      split at h
      · cases h
        exact .inl rfl
      · exact hmono (ih h)
    | data k => exact hmono (ih h)

def Cell.isHdr : Cell → Bool
  | .hdr _ => true
  | _ => false

/-- what the runtime consists of: no padding, no `nop`, and no instruction that writes to the header -/
def runtimeItem : Item Cell Label → Bool
  | .instr .nop | .align _ => false
  | .instr i => i.cells.all fun c => !c.isHdr
  | _ => true

theorem instrAt_runtime {enc : Nat → Instr Cell Label → Nat} {a off n : Nat} {b : Buffer}
    {i : Instr Cell Label} (hb : b.all runtimeItem = true) (h : instrAt enc a off b = some (i, n)) :
    runtimeItem (.instr i) = true := by
  induction b generalizing off with
  | nil => exact absurd h (by simp [instrAt])
  | cons it b ih =>
    obtain ⟨hit, hrest⟩ : runtimeItem it = true ∧ b.all runtimeItem = true :=
      Bool.and_eq_true_iff.mp (List.all_cons.symm.trans hb)
    cases it with
    | instr j =>
      rw [instrAt] at h
      split at h
      · cases h
        exact hit
      · exact ih hrest h
    | label l => exact ih hrest h
    | align k => exact absurd hit Bool.false_ne_true
    | data k => exact ih hrest h

theorem Laid.calm {c : CompilerImpl} {r : AmxRef} {enc : Nat → Instr Cell Label → Nat}
    {is : List Instruction} {buf items : Buffer} {map : List (Word × Nat)}
    (h : Laid c r enc is buf items map) :
    ∃ post, items = buf ++ post ∧ calmBuffer post = true := by
  induction is generalizing buf map with
  | nil => exact ⟨[], h.1.trans (List.append_nil buf).symm, rfl⟩
  | cons i is ih =>
    obtain ⟨b, m, hb, -, h⟩ := h
    obtain ⟨post, rfl, hpost⟩ := ih h
    have hl : calmBuffer (instrLabel i) = true := by
      unfold instrLabel
      split <;> rfl
    refine ⟨instrLabel i ++ b ++ post, by simp only [List.append_assoc], ?_⟩
    rw [calmBuffer_append, calmBuffer_append, hl, (compileInstr_emitted c r hb).2, hpost]
    rfl

namespace Jit
variable (jit : Jit)

theorem fetch_calm {pc n : Word} {i : Instr Cell Label} (hpc : jit.InScript pc)
    (h : jit.image.fetch pc = some (i, n)) : AmxJit.calm i = true := by
  obtain ⟨post, hp, hcalm⟩ := jit.laid.calm
  unfold Image.fetch at h
  obtain ⟨⟨j, k⟩, hj, he⟩ := Option.map_eq_some_iff.mp h
  obtain rfl : j = i := congrArg Prod.fst he
  have hskip := instrAt_skip jit.enc jit.enc_pos (jit.image.offset pc) 0 jit.runtime post hpc.1
  have hj' : instrAt jit.enc (jit.image.offset pc) 0 (jit.runtime ++ post) = some (j, k) := by
    rw [← hp]
    exact hj
  rw [hskip] at hj'
  rcases instrAt_mem hj' with rfl | hm
  · rfl
  · exact List.all_eq_true.mp hcalm _ hm

/-- the table has addresses in the script -/
theorem inScript_entry {e : InstrTableEntry} (he : e ∈ jit.instrTable) : jit.InScript e.ptr := by
  obtain ⟨x, hx, rfl⟩ := List.mem_map.mp he
  obtain ⟨h1, h2⟩ := jit.laid.map_snd.1 x hx
  have hfits := jit.fits
  have hoff : jit.image.offset (jit.image.at' x.2) = x.2 := jit.image.offset_at x.2 (by omega)
  unfold InScript
  rw [hoff]
  exact ⟨h1, h2⟩

theorem inScript_native {a p : Word} (h : jit.native a = some p) : jit.InScript p := by
  obtain ⟨i, hi, rfl⟩ := jit.native_decoded h
  obtain ⟨p', hp', hmem⟩ := jit.native_mem hi
  rw [h] at hp'
  cases hp'
  exact jit.inScript_entry hmem

/-- what the lookup finds is in the script -/
theorem inScript_lookup {a : Word} (h : getJITInstrPtr jit.instrTable a ≠ 0) :
    jit.InScript (getJITInstrPtr jit.instrTable a) := by
  have hmem : ∃ e ∈ jit.instrTable, e.ptr = getJITInstrPtr jit.instrTable a := by
    by_contra hn
    refine h (lookup_address_none (instrTable_sorted jit) fun e he ha => hn ⟨e, he, ?_⟩)
    rw [← ha]
    exact (lookup_address (instrTable_sorted jit) he).symm
  obtain ⟨e, he, hp⟩ := hmem
  rw [← hp]
  exact jit.inScript_entry he

theorem runtime_items : jit.runtime.all runtimeItem = true := by
  have hasm (is : Code) : (asm is).all runtimeItem = is.all fun i => runtimeItem (.instr i) :=
    List.all_map
  have hprint (c : CompilerImpl) (m : String) :
      (emitDebugPrint c m).all (fun i => runtimeItem (.instr i)) = true := by
    unfold emitDebugPrint
    split <;> rfl
  unfold runtime emitRuntime emitExec emitExecHelper emitExecContHelper emitHaltHelper
    emitSysreqCHelper emitSysreqDHelper sysreqEnter sysreqLeave execReject
  cases jit.compiler.enableSleep <;>
    simp only [Bool.false_eq_true, if_false, if_true, List.all_append, hasm, hprint] <;> rfl

theorem fetch_runtime {pc n : Word} {i : Instr Cell Label}
    (h : jit.image.fetch pc = some (i, n)) (hpc : jit.image.offset pc < jit.scriptStart) :
    runtimeItem (.instr i) = true := by
  obtain ⟨post, hp⟩ := jit.laid.items_eq
  unfold Image.fetch at h
  obtain ⟨⟨j, k⟩, hj, he⟩ := Option.map_eq_some_iff.mp h
  obtain rfl : j = i := congrArg Prod.fst he
  have hj' : instrAt jit.enc (jit.image.offset pc) 0 (jit.runtime ++ post) = some (j, k) := by
    rw [← hp]
    exact hj
  exact instrAt_runtime jit.runtime_items (instrAt_front jit.enc hj' hpc)

/-- an instruction, or the padding in front of it -/
theorem inScript_at {i : Instruction} {pc : Word} (h : jit.At i pc) : jit.InScript pc := by
  obtain ⟨a, ha, rfl | ⟨-, hf⟩⟩ := h
  · exact jit.inScript_native ha
  refine ⟨Nat.le_of_not_lt fun hlt => Bool.false_ne_true (jit.fetch_runtime hf hlt), ?_⟩
  unfold Image.fetch at hf
  obtain ⟨⟨j, k⟩, hj, -⟩ := Option.map_eq_some_iff.mp hf
  obtain ⟨h1, h2⟩ := instrAt_bounds jit.enc jit.enc_pos hj
  have h2' : k ≤ jit.size := h2
  omega

/-- behind an instruction of the script -/
theorem inScript_next {pc n : Word} {i : Instr Cell Label} (hpc : jit.InScript pc)
    (h : jit.image.fetch pc = some (i, n)) : jit.InScript n := by
  unfold Image.fetch at h
  obtain ⟨⟨j, k⟩, hj, he⟩ := Option.map_eq_some_iff.mp h
  obtain rfl : jit.image.at' k = n := congrArg Prod.snd he
  obtain ⟨h1, h2⟩ := instrAt_bounds jit.enc jit.enc_pos hj
  obtain ⟨h3, h4⟩ := hpc
  have h2' : k ≤ jit.size := h2
  have hfits : jit.base.toNat + jit.size < 2^32 := jit.fits
  have hoff : jit.image.offset (jit.image.at' k) = k := jit.image.offset_at k (by omega)
  unfold InScript
  rw [hoff]
  omega

end Jit

/-- what the script leaves alone: all but `amx->hea`, `amx->stk` and the x87 unit -/
def quiet (v : Vars) : RuntimeInfoBlock × AmxHeader × Word × Amx :=
  (v.rib, v.hdr, v.amxPtr, { v.amx with hea := 0, stk := 0 })

theorem step_quiet {adr : Label → Option Word} {i : Instr Cell Label} {n : Word} {s t : Machine}
    (hc : calm i = true) (h : step adr i n s = some t) :
    t.ebx = s.ebx ∧ quiet t.vars = quiet s.vars := by
  obtain ⟨hebx, hcells⟩ := Bool.and_eq_true_iff.mp hc
  refine ⟨step_get (r := .ebx) (by simpa using hebx) h, step_vars (fun c hm w v => ?_) ?_ h⟩
  · have hor := List.all_eq_true.mp hcells c hm
    simp only [Bool.or_eq_true, decide_eq_true_eq] at hor
    rcases hor with rfl | rfl <;> rfl
  · exact fun op x v => rfl

namespace Env
variable (env : Env)

instance (u : Machine) : Decidable (Continues env u) := inferInstanceAs (Decidable (_ ∧ _))

/-- how `Exec`, entered in the state `u`, enters the script -/
def mode (u : Machine) : Mode :=
  if check u.vars.amx = none ∧ Continues env u then .continue' else .start

/-- the cell that `retval` points to -/
def retCell (u : Machine) : Set Word :=
  if u.mem.read32 (u.esp + 8) = 0 then ∅ else bytes (u.mem.read32 (u.esp + 8)) 4

/-- `Exec`, entered in the state `u`, has returned. -/
structure Returned (u v : Machine) : Prop where
  pc : v.pc = u.top
  esp : v.esp = u.esp + 4
  ebx : v.ebx = u.ebx
  ebp : v.ebp = u.ebp
  esi : v.esi = u.esi
  edi : v.edi = u.edi
  ribEbp : v.vars.rib.ebp = u.vars.rib.ebp
  ribEsp : v.vars.rib.esp = u.vars.rib.esp
  amxEbp : v.vars.rib.amxEbp = u.vars.rib.amxEbp
  amxEsp : v.vars.rib.amxEsp = u.vars.rib.amxEsp
  ribAmx : v.vars.rib.amx = u.vars.rib.amx
  resetEbp : v.vars.rib.resetEbp = (env.mode u).saved u u.vars.rib.resetEbp 12
  resetEsp : v.vars.rib.resetEsp = (env.mode u).saved u u.vars.rib.resetEsp 16
  resetStk : v.vars.rib.resetStk = (env.mode u).saved u u.vars.rib.resetStk 20
  resetHea : v.vars.rib.resetHea = (env.mode u).saved u u.vars.rib.resetHea 24
  amxPtr : v.vars.amxPtr = u.vars.amxPtr
  callback : v.vars.amx.callback = u.vars.amx.callback
  base : dataBase v.vars = dataBase u.vars
  error : v.vars.amx.error = AMX_ERR_NONE ∨ v.vars.amx.error = u.vars.amx.error
  mem : Set.EqOn v.mem u.mem (upTo env.top (u.esp + 12) \ retCell u)

variable {env} {R : Machine → Machine → Prop} {P Q : Machine → Prop} {u s t v : Machine} {k : Mode}

/-! ## the ways to return -/

/-- the stack above the point where the helper leaves it -/
theorem upTo_above (hu : env.Entry u) (k : Mode) :
    upTo env.top (u.esp - k.depth + 16) ⊆
        (env.amxMem ∪ below (u.esp - k.depth + 16) (env.window + 32))ᶜ ∧
      upTo env.top (u.esp + 12) ⊆ upTo env.top (u.esp - k.depth + 16) ∧
      bytes (u.esp - k.depth + 16) (k.depth.toNat - 4) ⊆ upTo env.top (u.esp - k.depth + 16) := by
  obtain ⟨h1, h2, h3⟩ := hu.depth k
  obtain ⟨hroom, -⟩ := hu.room
  have hargs := hu.args
  have hw := env.window_le
  have hlt : (env.top - env.lo).toNat < 2^32 := BitVec.isLt _
  have hneed : env.need = env.window + 256 := rfl
  have h16 : (16 : Word).toNat = 16 := rfl
  have h12 : (12 : Word).toNat = 12 := rfl
  have hd : 60 ≤ k.depth.toNat ∧ k.depth.toNat ≤ 64 := by
    cases k <;> decide
  have htop : (env.top - (u.esp - k.depth + 16)).toNat =
      (env.top - u.esp).toNat + k.depth.toNat - 16 := by
    simp only [BitVec.toNat_sub, BitVec.toNat_add, h16] at h1 h2 h3 hargs hroom hlt ⊢
    omega
  refine ⟨fun a ha => ?_, fun a ha => ?_, bytes_mono (by omega)⟩
  · rintro (hm | hb)
    · have ha' : (a - (u.esp - k.depth + 16)).toNat < (env.top - (u.esp - k.depth + 16)).toNat := ha
      have hup : a ∈ upTo env.top (u.esp - k.depth) := by
        show (a - (u.esp - k.depth)).toNat < (env.top - (u.esp - k.depth)).toNat
        rw [h1]
        rw [htop] at ha'
        simp only [BitVec.toNat_sub, BitVec.toNat_add, h16] at ha' h1 h2 h3 hlt ⊢
        omega
      exact upTo_amxMem hu k hup hm
    · exact Set.disjoint_left.mp (below_disjoint (k := (env.top - (u.esp - k.depth + 16)).toNat)
        (by omega)) hb ha
  · have ha' : (a - (u.esp + 12)).toNat < (env.top - (u.esp + 12)).toNat := ha
    show (a - (u.esp - k.depth + 16)).toNat < (env.top - (u.esp - k.depth + 16)).toNat
    rw [htop]
    simp only [BitVec.toNat_sub, BitVec.toNat_add, h16, h12] at ha' hargs h1 h2 h3 hlt ⊢
    omega

theorem returned_finished (hu : env.Entry u) (hs : InFrame env u (env.mode u) s) {m : Mem} (fl : Flags)
    (hm : Set.EqOn m s.mem
      (env.amxMem ∪ below (u.esp - (env.mode u).depth + 16) (env.window + 32))ᶜ) :
    Returned env u (finished u s m fl) := by
  obtain ⟨h1, h2, h3⟩ := upTo_above hu (env.mode u)
  have hm' := hm.mono h1
  have hword (v : Word) (hv : 12 ≤ v.toNat ∧ v.toNat ≤ 24) :
      m.read32 (u.esp - v) = s.mem.read32 (u.esp - v) := by
    have hd : (env.mode u).depth.toNat = 60 ∨ (env.mode u).depth.toNat = 64 := by
      cases env.mode u
      · exact .inr rfl
      · exact .inl rfl
    have he : u.esp - (env.mode u).depth + 16 + ((env.mode u).depth - 16 - v) = u.esp - v := by
      abel
    have h16 : (16 : Word).toNat = 16 := rfl
    have hb := bytes_sub (p := u.esp - (env.mode u).depth + 16) (k := 4)
      (i := ((env.mode u).depth - 16 - v).toNat) (n := (env.mode u).depth.toNat - 4) (by
        simp only [BitVec.toNat_sub, h16]
        omega)
    rw [BitVec.ofNat_toNat, BitVec.setWidth_eq, he] at hb
    exact EqOn.read32 hm' (hb.trans h3)
  have hf := hs.frame
  refine ⟨rfl, rfl, rfl, rfl, rfl, rfl, rfl, rfl, rfl, rfl, ?_, ?_, ?_, ?_, ?_, hs.amxPtr,
    hs.callback.trans hu.callback.symm, hs.base, .inl rfl, ?_⟩
  · exact hs.amx.trans (hs.amxPtr.trans hu.amx.symm)
  · exact (hword 12 (by decide)).trans hf.resetEbp
  · exact (hword 16 (by decide)).trans hf.resetEsp
  · exact (hword 20 (by decide)).trans hf.resetStk
  · exact (hword 24 (by decide)).trans hf.resetHea
  · rintro a ⟨ha, hret⟩
    have hkeep : storeRetval u s.eax m a = m a := by
      unfold storeRetval
      unfold retCell at hret
      split
      · rfl
      · rename_i hne
        rw [if_neg hne] at hret
        exact write_out _ _ _ _ _ (Nat.le_of_not_lt hret)
    exact hkeep.trans ((hm' (h2 ha)).trans (hf.above a ha))

theorem returned_rejected {error : Word} (hu : env.Entry u) (hmode : env.mode u = .start)
    (h : Rejected env u error v) : Returned env u v := by
  have hrib : v.vars.rib = u.vars.rib ∧ v.vars.amxPtr = u.vars.amxPtr ∧
      v.vars.amx.callback = u.vars.amx.callback ∧ dataBase v.vars = dataBase u.vars ∧
      (v.vars.amx.error = AMX_ERR_NONE ∨ v.vars.amx.error = u.vars.amx.error) := by
    rcases h.vars with hv | hv <;> rw [hv]
    · exact ⟨rfl, rfl, rfl, rfl, .inr rfl⟩
    · exact ⟨rfl, rfl, rfl, rfl, .inl rfl⟩
  obtain ⟨h1, h2, h3, h4, h5⟩ := hrib
  have hw := env.window_le
  refine ⟨h.pc, h.esp, h.ebx, h.ebp, h.esi, h.edi, congrArg _ h1, congrArg _ h1, congrArg _ h1,
    congrArg _ h1, congrArg _ h1, ?_, ?_, ?_, ?_, h2, h3, h4, h5, ?_⟩
  · rw [hmode]
    exact congrArg _ h1
  · rw [hmode]
    exact congrArg _ h1
  · rw [hmode]
    exact congrArg _ h1
  · rw [hmode]
    exact congrArg _ h1
  · refine fun a ha => h.mem fun hb => ?_
    obtain ⟨hroom, -⟩ := hu.room
    have hargs := hu.args
    have h3 := (hu.depth .start).2.2
    have hlt : (env.top - env.lo).toNat < 2^32 := BitVec.isLt _
    have h12 : (12 : Word).toNat = 12 := rfl
    have ha' : (a - (u.esp + 12)).toNat < (env.top - (u.esp + 12)).toNat := ha.1
    refine Set.disjoint_left.mp (below_disjoint (p := u.esp) (n := env.need)
      (k := (env.top - u.esp).toNat) (by omega)) hb ?_
    show (a - u.esp).toNat < (env.top - u.esp).toNat
    simp only [BitVec.toNat_sub, BitVec.toNat_add, h12] at ha' hargs ⊢
    omega

/-! ## host functions -/

/-- what a host function leaves alone -/
structure Kept (keep : Set Word) (s t : Machine) : Prop where
  ebp : t.vars.rib.ebp = s.vars.rib.ebp
  esp : t.vars.rib.esp = s.vars.rib.esp
  amxEbp : t.vars.rib.amxEbp = s.vars.rib.amxEbp
  amxEsp : t.vars.rib.amxEsp = s.vars.rib.amxEsp
  amx : t.vars.rib.amx = s.vars.rib.amx
  amxPtr : t.vars.amxPtr = s.vars.amxPtr
  callback : t.vars.amx.callback = s.vars.amx.callback
  base : dataBase t.vars = dataBase s.vars
  mem : Set.EqOn t.mem s.mem keep

theorem Kept.trans {keep : Set Word} (h : Kept keep s t) (h' : Kept keep t v) : Kept keep s v :=
  ⟨h'.ebp.trans h.ebp, h'.esp.trans h.esp, h'.amxEbp.trans h.amxEbp, h'.amxEsp.trans h.amxEsp,
    h'.amx.trans h.amx, h'.amxPtr.trans h.amxPtr, h'.callback.trans h.callback,
    h'.base.trans h.base, h'.mem.trans h.mem⟩

theorem HostWork.kept {keep : Set Word} (h : HostWork keep s t) : Kept keep s t := by
  refine ⟨by rw [h.rib], by rw [h.rib], by rw [h.rib], by rw [h.rib], by rw [h.rib], h.amxPtr,
    h.callback, ?_, h.mem⟩
  unfold dataBase
  rw [h.data, h.base, h.hdr]

theorem Returned.kept {keep : Set Word} (h : Returned env u v)
    (hkeep : keep ⊆ upTo env.top (u.esp + 12))
    (hret : u.mem.read32 (u.esp + 8) = 0 ∨ Disjoint (bytes (u.mem.read32 (u.esp + 8)) 4) keep) :
    Kept keep u v := by
  refine ⟨h.ribEbp, h.ribEsp, h.amxEbp, h.amxEsp, h.ribAmx, h.amxPtr, h.callback, h.base,
    fun a ha => h.mem ⟨hkeep ha, ?_⟩⟩
  unfold retCell
  split
  · exact Set.notMem_empty a
  · rename_i hne
    exact fun hb => Set.disjoint_left.mp (hret.resolve_left hne) hb ha

/-- **A host function keeps the frame around it**, whatever it runs. -/
theorem hostRun_kept {X : Machine → Machine → Prop} {keep : Set Word}
    (hX : ∀ u v, Entry env u → X u v → Returned env u v) (h : HostRun env X keep s t) :
    Kept keep s t := by
  induction h with
  | refl => exact ⟨rfl, rfl, rfl, rfl, rfl, rfl, rfl, rfl, fun _ _ => rfl⟩
  | work _ hw ih => exact ih.trans hw.kept
  | exec _ hu hkeep hret hx ih => exact ih.trans ((hX _ _ hu hx).kept hkeep hret)

/-! ## spots -/

variable (env)

/-- The states of a run of `Exec`, entered in the state `u`, between which only the runtime works. -/
inductive Spot (u : Machine) : Machine → Prop where
  | script {s : Machine} : InFrame env u (env.mode u) s → env.jit.InScript s.pc → Spot u s
  | calling {s : Machine} (f : Callee) : Calling env u (env.mode u) f s → Spot u s
  | halting {s : Machine} (n : Word) : InFrame env u (env.mode u) s →
      env.jit.runtimeFetch s.pc = some (.call .haltHelper, n) → env.AmxRoom s.esp → Spot u s
  | lost {s : Machine} : s.pc = 0 → Spot u s
  | returned {s : Machine} : Returned env u s → Spot u s

variable {env} {X : Machine → Machine → Prop}

/-- the steps from a state in the script -/
theorem step_script (hs : env.jit.InScript s.pc) (h : Step env X s t) :
    ScriptStep env s t ∧ ∃ i n, env.jit.image.fetch s.pc = some (i, n) ∧
      step env.jit.image.addr i n s = some t := by
  cases h with
  | runtime hf _ => exact absurd hs (env.jit.runtimeFetch_inside hf).1
  | script _ hf hstep hss => exact ⟨hss, _, _, hf, hstep⟩
  | cfun f hpc _ =>
    rw [hpc] at hs
    exact absurd hs (env.jit.not_inScript (env.cfun_outside f))
  | callback hpc _ =>
    rw [hpc] at hs
    exact absurd hs (env.jit.not_inScript env.callback_outside)
  | native hpc _ => exact absurd hs (env.jit.not_inScript (env.natives_outside _ hpc))

/-- the steps from the first instruction of a callee -/
theorem step_callee {f : Callee} (hs : env.CalleePc s.pc f) (h : Step env X s t) :
    HostCall env X f.frame s t := by
  have hhost : env.HostPc s.pc := by
    cases f with
    | callback => exact .inl hs
    | native => exact .inr (.inl hs)
  have hout := env.outside_of_hostPc hhost
  cases h with
  | runtime hf _ => exact absurd hout (env.jit.runtimeFetch_inside hf).2
  | script hin _ _ _ => exact absurd hin (env.jit.not_inScript hout)
  | cfun g hpc _ => exact absurd hpc (env.hostPc_ne hhost g)
  | callback hpc hc =>
    cases f with
    | callback => exact hc
    | native => exact absurd hpc (env.natives_ne _ hs).1
  | native hn hc =>
    cases f with
    | callback => exact absurd hs (env.natives_ne _ hn).1
    | native => exact hc

/-- no step from an address of the host where no function begins -/
theorem no_step (hpc : env.HostAddr s.pc) : ¬ Step env X s t := by
  intro h
  obtain ⟨hout, h1, h2, h3⟩ := hpc
  cases h with
  | runtime hf _ => exact (env.jit.runtimeFetch_inside hf).2 hout
  | script hin _ _ _ => exact env.jit.not_inScript hout hin
  | cfun f hpc _ => exact h3 f hpc
  | callback hpc _ => exact h1 hpc
  | native hn _ => exact h2 hn

theorem hostAddr_zero : env.HostAddr 0 := by
  obtain ⟨h1, h2, h3, h4⟩ := env.null
  exact ⟨h1, Ne.symm h2, h3, h4⟩

/-- the call of `HaltHelper` -/
theorem step_halting {n : Word} (hf : env.jit.runtimeFetch s.pc = some (.call .haltHelper, n))
    (h : Step env X s t) :
    ∃ a, env.jit.image.addr .haltHelper = some a ∧ t = { s.push n with pc := a } := by
  have hstep := ((env.drives X).driven s _ n hf t).mp h
  obtain ⟨a, ha, rfl⟩ := Option.map_eq_some_iff.mp hstep
  exact ⟨a, ha, rfl⟩

/-! ## the steps from a spot -/

/-- an instruction of the script keeps the frame -/
theorem InFrame.script (hu : env.Entry u) (hs : InFrame env u k s) (hin : env.jit.InScript s.pc)
    (h : Step env X s t) : InFrame env u k t ∧ ScriptStep env s t := by
  obtain ⟨hss, i, n, hf, hstep⟩ := step_script hin h
  obtain ⟨hebx, hq⟩ := step_quiet (env.jit.fetch_calm hin hf) hstep
  simp only [quiet, Prod.mk.injEq, Amx.mk.injEq] at hq
  obtain ⟨hrib, hhdr, hptr, hbase, hdata, hcb, -⟩ := hq
  refine ⟨hs.amxWork hu hss.mem (by rw [hrib]) (by rw [hrib]) (by rw [hrib]) hptr hcb ?_ hebx, hss⟩
  unfold dataBase
  rw [hdata, hbase, hhdr]

/-- the frame after a host function -/
theorem Calling.returns {f : Callee} (hu : env.Entry u) (hs : Calling env u k f s)
    (hX : ∀ u v, Entry env u → X u v → Returned env u v) (h : HostCall env X f.frame s t) :
    InFrame env u k t ∧ Set.EqOn t.mem s.mem (upTo env.top (u.esp - k.depth - 12)) := by
  have hkept := hostRun_kept hX h.run
  have he : s.esp + f.frame = u.esp - k.depth - 12 := by
    rw [hs.esp, BitVec.sub_add_cancel]
  have hmem := hkept.mem
  rw [he] at hmem
  have hsub : upTo env.top (u.esp - k.depth) ⊆ upTo env.top (u.esp - k.depth - 12) := by
    obtain ⟨h1, h2, h3⟩ := hu.depth k
    obtain ⟨hroom, -⟩ := hu.room
    have hlt : (env.top - env.lo).toNat < 2^32 := BitVec.isLt _
    have h12 : (12 : Word).toNat = 12 := rfl
    have hd : k.depth.toNat ≤ 64 := by
      cases k <;> decide
    unfold need at hroom
    intro a ha
    have ha' : (a - (u.esp - k.depth)).toNat < (env.top - (u.esp - k.depth)).toNat := ha
    show (a - (u.esp - k.depth - 12)).toNat < (env.top - (u.esp - k.depth - 12)).toNat
    simp only [BitVec.toNat_sub, h12] at ha' h1 h2 h3 hroom hlt ⊢
    omega
  exact ⟨hs.inFrame.congr hu (hmem.mono hsub) hkept.esp hkept.ebp hkept.amx hkept.amxPtr
    hkept.callback hkept.base h.ebx, hmem⟩

/-- a word that the helper has pushed -/
theorem read_pushed (hu : env.Entry u) (k : Mode) {m m' : Mem} {v : Word}
    (h : Set.EqOn m' m (upTo env.top (u.esp - k.depth - 12))) (hv : 4 ≤ v.toNat ∧ v.toNat ≤ 12) :
    m'.read32 (u.esp - k.depth - v) = m.read32 (u.esp - k.depth - v) := by
  obtain ⟨h1, h2, h3⟩ := hu.depth k
  obtain ⟨hroom, -⟩ := hu.room
  have hlt : (env.top - env.lo).toNat < 2^32 := BitVec.isLt _
  have h12 : (12 : Word).toNat = 12 := rfl
  have hd : k.depth.toNat ≤ 64 := by
    cases k <;> decide
  unfold need at hroom
  refine EqOn.read32 h fun a ha => ?_
  have ha' : (a - (u.esp - k.depth - v)).toNat < 4 := ha
  show (a - (u.esp - k.depth - 12)).toNat < (env.top - (u.esp - k.depth - 12)).toNat
  simp only [BitVec.toNat_sub, h12] at ha' h1 h2 h3 hroom hlt ⊢
  omega

/-- behind the call of a callee -/
theorem Calling.behind {f : Callee} (hu : env.Entry u) (hc : Calling env u k f s)
    (hX : ∀ u v, Entry env u → X u v → Returned env u v) (h : Step env X s t) :
    InFrame env u k t ∧
      (∃ e, Seg env.jit.runtimeFetch env.jit.image.addr t.pc (afterCallee env.jit.compiler f) e) ∧
      t.esp = u.esp - k.depth - 12 - f.frame + 4 ∧
      env.AmxRoom (t.mem.read32 (u.esp - k.depth - 4)) ∧ t.esi = s.esi ∧
      Set.EqOn t.mem s.mem (upTo env.top (u.esp - k.depth - 12)) := by
  have hcall := step_callee hc.pc h
  obtain ⟨ht, hmem⟩ := hc.returns hu hX hcall
  have hroom := hc.room
  have hback := hc.back
  rw [← read_pushed hu k (v := 4) hmem (by decide)] at hroom
  rw [← hcall.pc] at hback
  exact ⟨ht, hback, by rw [hcall.esp, hc.esp], hroom, hcall.esi, hmem⟩

/-- the script ends in `HaltHelper` -/
theorem returned_halt (hu : env.Entry u) (hs : InFrame env u (env.mode u) s)
    (hpc : env.jit.image.addr .haltHelper = some s.pc) (hroom : env.AmxRoom (s.esp + 4)) :
    Until (Step env X) env.Plain (Returned env u) s := by
  refine until_halt (env.drives X) hu hs hpc hroom fun m fl y hm => .now ?_
  have hkeep : (env.jit.haltAmx s).callback = s.vars.amx.callback ∧
      (env.jit.haltAmx s).data = s.vars.amx.data ∧ (env.jit.haltAmx s).base = s.vars.amx.base := by
    unfold Jit.haltAmx
    split <;> exact ⟨rfl, rfl, rfl⟩
  have hbase : dataBase { s.vars with amx := env.jit.haltAmx s } = dataBase s.vars := by
    unfold dataBase
    rw [hkeep.2.1, hkeep.2.2]
  have hin : InFrame env u (env.mode u) { s with
      eax := env.jit.haltPri s, edx := y, vars := { s.vars with amx := env.jit.haltAmx s } } :=
    hs.congr hu (fun _ _ => rfl) rfl rfl rfl rfl hkeep.1 hbase rfl
  exact returned_finished hu hin fl
    (hm.mono (Set.compl_subset_compl.mpr (Set.union_subset_union_left _ hroom)))

/-- the entry function returns -/
theorem returned_callReturn (hu : env.Entry u) (hs : InFrame env u (env.mode u) s)
    (hpc : env.jit.image.addr .callReturn = some s.pc) :
    Until (Step env X) env.Plain (Returned env u) s := by
  refine until_callReturn (env.drives X) hu hs hpc fun m fl y hm => .now ?_
  have hkeep : (returnAmx env.jit.compiler s).callback = s.vars.amx.callback ∧
      (returnAmx env.jit.compiler s).data = s.vars.amx.data ∧
      (returnAmx env.jit.compiler s).base = s.vars.amx.base := by
    unfold returnAmx
    split <;> exact ⟨rfl, rfl, rfl⟩
  have hbase : dataBase { s.vars with amx := returnAmx env.jit.compiler s } = dataBase s.vars := by
    unfold dataBase
    rw [hkeep.2.1, hkeep.2.2]
  have hin : InFrame env u (env.mode u) { s with
      edx := y, vars := { s.vars with amx := returnAmx env.jit.compiler s } } :=
    hs.congr hu (fun _ _ => rfl) rfl rfl rfl rfl hkeep.1 hbase rfl
  exact returned_finished hu hin fl
    (hm.mono (Set.compl_subset_compl.mpr Set.subset_union_right))

/-- from a helper that the script calls: back to the script, to a callee, or to the return of `Exec` -/
theorem until_helper (hu : env.Entry u) (hs : InFrame env u (env.mode u) s) {l : Label}
    (hl : l ∈ scriptCalls) (hpc : env.jit.image.addr l = some s.pc) (hret : env.jit.InScript s.top)
    (hroom : env.AmxRoom (s.esp + helperArgs l))
    (hnative : env.jit.image.addr .sysreqDHelper = some s.pc → s.mem.read32 (s.esp + 4) ∈ env.natives)
    (hscript : ∀ t, InFrame env u (env.mode u) t → env.jit.InScript t.pc → t.vars = s.vars → Q t)
    (hcall : ∀ f t, Calling env u (env.mode u) f t → Q t)
    (hreturned : ∀ t, Returned env u t → Q t) : Until (Step env X) env.Plain Q s := by
  have hD := env.drives X
  have hw := env.window_le
  -- the memory below the stack pointer of the script
  have hbelow {m : Mem} {n : Nat} (hn : n ≤ env.window + 40)
      (hroom : env.AmxRoom (s.esp + 4)) (hm : Set.EqOn m s.mem (below s.esp n)ᶜ) :
      Set.EqOn m s.mem env.amxMemᶜ := by
    refine hm.mono (Set.compl_subset_compl.mpr (Set.Subset.trans (below_add (v := 4) ?_) hroom))
    show n + 4 ≤ env.window + 256
    omega
  simp only [scriptCalls, List.mem_cons, List.not_mem_nil, or_false] at hl
  rcases hl with rfl | rfl | rfl | rfl | rfl
  · exact (returned_halt hu hs hpc hroom).imp hreturned
  · exact until_sysreqC hD hu hs hpc hret hroom fun t ht => .now (hcall .callback t ht.calling)
  · exact until_sysreqD hD hu hs hpc hret hroom (hnative hpc) fun t ht =>
      .now (hcall .native t ht.calling)
  · refine until_jumpHelper hD hpc fun fl m hm => .now (hscript _ ?_ ?_ rfl)
    · exact hs.amxWork hu (hbelow (le_refl _) hroom hm) rfl rfl rfl rfl rfl rfl rfl
    · dsimp only
      split
      · exact hret
      · rename_i hne
        exact env.jit.inScript_lookup hne
  · refine until_scriptLookup hD hpc fun fl m hm => .now (hscript _ ?_ hret rfl)
    exact hs.amxWork hu (hbelow (by omega) hroom hm) rfl rfl rfl rfl rfl rfl rfl

/-- from a state of the script: back to it, to a callee, or to the return of `Exec`; between the
instructions of the script its AMX structure is as it was -/
theorem until_script (hu : env.Entry u) (hs : InFrame env u (env.mode u) s)
    (hin : env.jit.InScript s.pc) (h : Step env X s t)
    (hscript : ∀ r, InFrame env u (env.mode u) r → env.jit.InScript r.pc → r.vars = t.vars → Q r)
    (hcall : ∀ f r, Calling env u (env.mode u) f r → Q r)
    (hreturned : ∀ r, Returned env u r → Q r) : Until (Step env X) env.Plain Q t := by
  obtain ⟨ht, hss⟩ := hs.script hu hin h
  rcases hss.pc with hpc | hpc | ⟨l, hl, hpc⟩
  · exact .now (hscript t ht hpc rfl)
  · exact (returned_callReturn hu ht hpc).imp hreturned
  · obtain ⟨hret, hroom⟩ := hss.call l hl hpc
    exact until_helper hu ht hl hpc hret hroom hss.native hscript hcall hreturned

/-- **From a spot every step leads to a spot**, if the calls of `Exec` in host functions return. -/
theorem spot_step (hX : ∀ u v, Entry env u → X u v → Returned env u v) (hu : env.Entry u)
    (hs : Spot env u s) (h : Step env X s t) : Until (Step env X) env.Plain (Spot env u) t := by
  cases hs with
  | script hin hpc =>
    exact until_script hu hin hpc h (fun _ hr hpc' _ => .script hr hpc') (fun f _ hc => .calling f hc)
      fun _ => .returned
  | calling f hc =>
    obtain ⟨ht, hback, hesp, hroom, hesi, -⟩ := hc.behind hu hX h
    set r := f.resumed (u.esp - (env.mode u).depth) t with hr
    have hframe : InFrame env u (env.mode u) r :=
      ht.congr hu (fun _ _ => rfl) rfl rfl rfl rfl rfl rfl rfl
    refine until_return (env.drives X) hu f ht hback hesp hroom ?_ ?_ ?_
    · intro r' hsl m fl hm
      refine .now (.returned ?_)
      have hin : InFrame env u (env.mode u) { r with
          edx := r.vars.amxPtr, vars := { r.vars with amx := sleepAmx r } } :=
        hframe.congr hu (fun _ _ => rfl) rfl rfl rfl rfl rfl rfl rfl
      exact returned_finished hu hin fl
        (hm.mono (Set.compl_subset_compl.mpr (Set.union_subset_union_left _ hroom)))
    · intro r' _ _ a n fl hf
      exact .now (.halting n (hframe.congr hu (fun _ _ => rfl) rfl rfl rfl rfl rfl rfl rfl) hf hroom)
    · intro r' _ fl
      refine .now (.script (hframe.amxWork hu ?_ rfl rfl rfl rfl rfl rfl rfl) ?_)
      · refine eqOn_write _ (Set.disjoint_compl_right_iff_subset.mpr (Set.Subset.trans ?_ hroom))
        exact bytes_below (i := 4) (le_refl 4) (by
          unfold need
          omega)
      · show env.jit.InScript t.esi
        rw [hesi]
        exact hc.ret
  | halting n hin hf hroom =>
    obtain ⟨a, ha, rfl⟩ := step_halting hf h
    have hpop : s.esp - 4 + 4 = s.esp := BitVec.sub_add_cancel _ _
    have hpush : Set.EqOn (s.push n).mem s.mem env.amxMemᶜ := by
      refine eqOn_write n (Set.disjoint_compl_right_iff_subset.mpr (Set.Subset.trans ?_ hroom))
      exact bytes_below (i := 4) (le_refl 4) (by
        unfold need
        omega)
    have hframe : InFrame env u (env.mode u) { s.push n with pc := a } :=
      hin.amxWork hu hpush rfl rfl rfl rfl rfl rfl rfl
    apply Until.imp (returned_halt hu hframe ha ?_) fun _ => Spot.returned
    show env.AmxRoom (s.esp - 4 + 4)
    rw [hpop]
    exact hroom
  | lost hpc =>
    refine absurd h (no_step ?_)
    rw [hpc]
    exact hostAddr_zero
  | returned hr =>
    refine absurd h (no_step ?_)
    rw [hr.pc]
    exact hu.ret

/-! ## runs of `Exec` -/

theorem mode_start (h : ¬ (check u.vars.amx = none ∧ Continues env u)) : env.mode u = .start :=
  if_neg h

theorem mode_continue (h : check u.vars.amx = none ∧ Continues env u) :
    env.mode u = .continue' := if_pos h

/-- what the lookup of an address leads to -/
theorem spot_lookup {a : Word} (hs : InFrame env u (env.mode u) s)
    (hpc : s.pc = getJITInstrPtr env.jit.instrTable a) : Spot env u s := by
  by_cases h0 : getJITInstrPtr env.jit.instrTable a = 0
  · exact .lost (hpc.trans h0)
  · refine .script hs ?_
    rw [hpc]
    exact env.jit.inScript_lookup h0

/-- the entry of `Exec` is on the way to a spot -/
theorem entry_until (hu : env.Entry u) : Until (Step env X) env.Plain (Spot env u) u := by
  refine until_exec (env.drives X) hu ?_ ?_ ?_ ?_
  · intro error t hcheck hr
    have hmode : env.mode u = .start := mode_start fun h => by
      rw [h.1] at hcheck
      exact absurd hcheck (by simp)
    exact .now (.returned (returned_rejected hu hmode hr))
  · intro _ hno _ t hr
    exact .now (.returned (returned_rejected hu (mode_start fun h => hno h.2) hr))
  · intro _ hno _ t ht
    have hin := ht.inFrame
    rw [← mode_start fun h => hno h.2] at hin
    exact .now (spot_lookup hin ht.pc)
  · intro hcheck hc t ht
    have hin := ht.inFrame
    rw [← mode_continue ⟨hcheck, hc⟩] at hin
    exact .now (spot_lookup hin ht.pc)

/-- **Every state of a run is on the way to a spot.** -/
theorem until_spot (hX : ∀ u v, Entry env u → X u v → Returned env u v) (hu : env.Entry u)
    (h : Relation.ReflTransGen (Step env X) u s) :
    Until (Step env X) env.Plain (Spot env u) s :=
  (entry_until hu).invariant (fun _ _ ha hab => spot_step hX hu ha hab) h

/-- a state on the way that is no state of the runtime is a spot -/
theorem spot_of_until (h : Until (Step env X) env.Plain (Spot env u) s) (hp : ¬ env.Plain s) :
    Spot env u s := h.or.resolve_right hp

theorem exec_returned (hX : ∀ u v, Entry env u → X u v → Returned env u v) (hu : env.Entry u)
    (h : Exec (Step env X) u v) : Returned env u v := by
  have hhost : env.HostAddr v.pc := by
    rw [h.2]
    exact hu.ret
  have hspot := spot_of_until (until_spot hX hu h.1) fun hp => hp.host (.inr (.inr hhost))
  cases hspot with
  | script _ hin => exact absurd hin (env.jit.not_inScript hhost.1)
  | calling f hc =>
    have hpc := hc.pc
    cases f with
    | callback => exact absurd hpc hhost.2.1
    | native => exact absurd hpc hhost.2.2.1
  | halting n _ hf _ => exact absurd hhost.1 (env.jit.runtimeFetch_inside hf).2
  | lost hpc => exact absurd (h.2.symm.trans hpc) hu.ret_ne
  | returned hr => exact hr

/-- **What a call of `Exec` comes to, at any depth of nesting.** -/
theorem level_returned (C : Machine → Prop) (n : Nat) :
    ∀ u v, Entry env u → Exec (level env C n) u v → Returned env u v := by
  induction n with
  | zero => exact fun u v hu h => exec_returned (fun _ _ _ hf => hf.elim) hu h
  | succ n ih => exact fun u v hu h => exec_returned (fun u' v' hu' hx => ih u' v' hu' hx.2) hu h

/-- the calls that a level allows return -/
theorem level_calls (C : Machine → Prop) (n : Nat) : ∃ X, level env C n = Step env X ∧
    (∀ u v, Entry env u → X u v → Returned env u v) := by
  cases n with
  | zero => exact ⟨_, rfl, fun _ _ _ hf => hf.elim⟩
  | succ n => exact ⟨_, rfl, fun u v hu hx => level_returned C n u v hu hx.2⟩

end Env

end AmxJit
