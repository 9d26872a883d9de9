import AmxJit.Runtime.Refine

/-!
# Calls of public functions

* `runs_start`        a call of `Exec` that starts a function brings the script to its first
                      configuration;
* `runs_wake`         a call that continues brings it to the configuration in which it sleeps;
* `Served`            while no return of a host function is faulty, the call comes to what the function
                      is to come to; after a sleep, so does any call that continues, `n` times at most;
* `public_function`   every call of a function that finishes on the abstract machine is served.
-/

set_option linter.constructorNameAsVariable false

namespace AmxJit
open X86 Trans Reg

namespace Env

/-- the configuration in which the public function starts; PRI and ALT hold anything -/
def startConfig (env : Env) (u : Machine) (pri alt : Word) : Config where
  cip := env.jit.entryAddress u
  st := {
    pri := pri
    alt := alt
    frm := u.vars.amx.frm
    stk := u.vars.amx.stk - 8
    hea := u.vars.amx.hea
    mem := ((u.mem.shift (dataBase u.vars)).write32 (u.vars.amx.stk - 4)
      (u.vars.amx.paramcount * 4)).write32 (u.vars.amx.stk - 8)
      ((env.jit.image.addr .callReturn).getD 0) }
  live := []

/-- the cells that are stale then: the free gap, and what is not AMX memory -/
def startStale (env : Env) (u : Machine) : Set Word :=
  (startConfig env u 0 0).st.gap ∪ {o | dataBase u.vars + o ∈ env.amxMem}ᶜ

/-- **A call of `Exec` is served**: while no return of a host function is faulty, it goes on until it
returns with what the function is to come to; or the script goes to sleep, and any call that continues
it is served, `n` times at most. -/
def Served (env : Env) (R : Machine → Machine → Prop) (host : Host) (post : Post) :
    Nat → Machine → Prop
  | 0, u => Unless R (Faulty env u host) (Finished env u post) u
  | n + 1, u => Unless R (Faulty env u host) (fun v => Finished env u post v ∨
      Returned env u v ∧ v.eax = AMX_ERR_SLEEP ∧
        ∀ u', Entry env u' → Wakes env v u' → u'.flags.df = false →
          Disjoint (retCell u') env.amxMem → Served env R host post n u') u

variable {env : Env} {X : Machine → Machine → Prop} {u u' s t v : Machine} {c : Config}
  {E : Set Word} {p : Point} {host : Host} {post : Post} {n : Nat} {a : Word}

/-! ## the start -/

theorem start_mem (hu : Entry env u) (ht : Started env u a t) (pri alt : Word) {o : Word}
    (ho : o ∉ startStale env u) :
    t.mem (dataBase u.vars + o) = (startConfig env u pri alt).st.mem o := by
  set d := dataBase u.vars with hd
  have hin : d + o ∈ env.amxMem := by
    by_contra h
    exact ho (.inr h)
  have hstk : startEsp u = d + (u.vars.amx.stk - 4) := add_comm _ _
  have hlow : startEsp u - 4 = d + (u.vars.amx.stk - 8) := by
    rw [hstk, add_sub_assoc, sub_sub_lit u.vars.amx.stk (c := 8) (by decide)]
  have hsep : X86.Sep (u.vars.amx.stk - 8) (u.vars.amx.stk - 4) := sep_sub _ (by decide)
  have hshift {q : Word} (hq : (t.mem.shift d).read32 q = (startConfig env u pri alt).st.mem.read32 q)
      (hoq : (o - q).toNat < 4) :
      t.mem (d + o) = (startConfig env u pri alt).st.mem o := by
    exact read32_inj hq hoq
  by_cases h8 : (o - (u.vars.amx.stk - 8)).toNat < 4
  · apply hshift ?_ h8
    rw [shift_read32, ← hlow]
    show _ = (Mem.write32 _ _ _).read32 _
    rw [read32_write32_self, ht.ret, ← ht.esp]
    rfl
  by_cases h4 : (o - (u.vars.amx.stk - 4)).toNat < 4
  · apply hshift ?_ h4
    rw [shift_read32, ← hstk, ht.params]
    show _ = (Mem.write32 _ _ _).read32 _
    rw [read32_write32_sep _ _ _ _ hsep, read32_write32_self]
  · have hold : (startConfig env u pri alt).st.mem o = u.mem (d + o) :=
      (write_out _ _ _ _ _ (Nat.le_of_not_lt h8)).trans
        (write_out _ _ _ _ _ (Nat.le_of_not_lt h4))
    rw [hold]
    apply ht.mem
    rintro (h | h)
    · exact hu.stack_below h hin
    · rw [hlow] at h
      have h' : (d + o - (d + (u.vars.amx.stk - 8))).toNat < 8 := h
      rw [add_sub_add] at h'
      have e8 : (8 : Word).toNat = 8 := rfl
      have e4 : (4 : Word).toNat = 4 := rfl
      simp only [BitVec.toNat_sub, e8, e4] at h' h8 h4
      omega

/-- the script has come to the first instruction of the function -/
theorem Started.runs (hu : Entry env u) (ht : Started env u a t)
    (hr : Relation.ReflTransGen (Step env X) u t) (hdf : t.flags.df = false)
    (ha : env.jit.native (env.jit.entryAddress u) = some a) :
    Runs env (Step env X) u (startConfig env u t.eax t.ecx) (startStale env u) t := by
  obtain ⟨j, hj, hja⟩ := env.jit.native_decoded ha
  have hframe := ht.inFrame
  refine ⟨hr, ⟨⟨⟨rfl, rfl, ?_, ?_, hframe.ebx, ?_⟩, ?_, ?_, hframe.amx, ?_, hdf⟩, j, hj, hja, ?_⟩, ?_,
    Set.Subset.refl _⟩
  · rw [ht.ebp]
    exact add_comm _ _
  · rw [ht.esp]
    unfold startEsp
    show _ = dataBase u.vars + (u.vars.amx.stk - 8)
    rw [add_comm _ (dataBase u.vars), add_sub_assoc, sub_sub_lit u.vars.amx.stk (c := 8) (by decide)]
  · rw [ht.vars]
    rfl
  · intro o ho
    exact start_mem hu ht _ _ fun h => ho (.inr h)
  · intro q hq
    exact absurd hq (by simp [startConfig])
  · rw [ht.vars]
    rfl
  · rw [ht.pc]
    rw [← hja] at ha
    exact Jit.at_native ha
  · rw [ht.vars]
    rfl

/-- **The start of a function** -/
theorem runs_start (hu : Entry env u) (hcheck : check u.vars.amx = none) (hno : ¬ Continues env u)
    (h0 : env.jit.entryAddress u ≠ 0) (hdf : u.flags.df = false)
    (hdec : ∃ i ∈ env.jit.instrs, i.address = env.jit.entryAddress u) :
    Must (Step env X) (fun t => ∃ pri alt,
      Runs env (Step env X) u (startConfig env u pri alt) (startStale env u) t) u := by
  obtain ⟨j, hj, hja⟩ := hdec
  have hnat := lookup_decoded env.jit hj
  rw [hja] at hnat
  have hgo : Until (Step env X) env.Plain
      (Started env u (getJITInstrPtr env.jit.instrTable (env.jit.entryAddress u))) u := by
    apply until_exec (env.drives X) hu
    · intro error t hc
      rw [hcheck] at hc
      exact absurd hc (by simp)
    · exact fun _ _ h => absurd h h0
    · exact fun _ _ _ t ht => .now ht
    · exact fun _ hc => absurd hc hno
  apply (until_df hgo).must.reached.imp
  rintro t ⟨⟨ht, hdf'⟩, hr⟩
  exact ⟨_, _, ht.runs hu hr (hdf'.trans hdf) hnat⟩

/-! ## going on -/

/-- **A call that continues** brings the script to the configuration in which it sleeps. -/
theorem runs_wake (hu : Entry env u') (hbase : dataBase u'.vars = dataBase u.vars)
    (hc : (setting env u host).Safe c) (hcov : (setting env u host).Covers c E)
    (hv : Holds env p v) (hw : Wakes env v u') (hp : Reflects env.jit (dataBase u.vars) E c p)
    (hdf : u'.flags.df = false) :
    Must (Step env X) (Runs env (Step env X) u' c E) u' := by
  apply (must_resume (X := X) hu hv hw).reached.imp
  rintro t ⟨ht, hr⟩
  have hstands := ht.mem
  rw [hbase] at hstands
  have hmem {o : Word} (hin : dataBase u.vars + o ∈ env.amxMem) (ho : o ∉ c.st.gap) :
      t.mem (dataBase u.vars + o) = p.mem (dataBase u.vars + o) := by
    apply hstands
    refine ⟨hin, ?_⟩
    rw [hp.stk, add_comm c.st.stk]
    exact notMem_below hc ho
  refine ⟨hr, ⟨⟨⟨?_, ?_, ?_, ?_, ?_, ?_⟩, ?_, ?_, ht.inFrame.amx, ?_, ?_⟩, p.next, hp.next, hp.cip,
    Jit.at_native ht.pc⟩, ht.error, ?_⟩
  · exact ht.pri.trans hp.pri
  · exact ht.alt.trans hp.alt
  · rw [ht.frm, hp.frm]
    exact add_comm _ _
  · rw [ht.stk, hp.stk]
    exact add_comm _ _
  · exact ht.inFrame.ebx
  · exact ht.hea.trans hp.hea
  · intro o ho
    rw [hbase, ← hp.mem o ho]
    apply hmem
    · by_contra h
      exact ho (.inr (hcov (.inr h)))
    · exact fun h => ho (.inr (hcov (.inl h)))
  · intro q hq k hk hka
    rw [hbase, live_read hq fun o ho => hmem (hc.area ho) (live_notMem hc ho)]
    exact hp.live q hq k hk hka
  · exact ht.const
  · exact ht.df.trans hdf
  · rw [hbase]
    exact hcov

/-! ## the whole life of a call -/

/-- a script that has come to a configuration from which the function finishes -/
theorem served_of_runs (hX : ∀ u v, Entry env u → X u v → Returned env u v)
    (hH : ∀ u v, X u v → v.vars.hdr = u.vars.hdr) (hdebug : env.jit.compiler.debugFlags = 0)
    (hlinked : Linked env) (hu : Entry env u) (hret : Disjoint (retCell u) env.amxMem)
    (hruns : Must (Step env X) (fun s => ∃ c E, Finishes (setting env u host) post n c E ∧
      Runs env (Step env X) u c E s) u) : Served env (Step env X) host post n u := by
  induction n generalizing u with
  | zero =>
    apply hruns.unless.bind
    rintro s ⟨c, E, hfin, hs⟩
    apply (unless_conclude hX hH hdebug hlinked hu hret hfin hs).imp
    rintro v (hv | hv)
    · exact hv
    · obtain ⟨c, E, p, hslept, -⟩ := hv.holds
      exact hslept.elim
  | succ n ih =>
    apply hruns.unless.bind
    rintro s ⟨c, E, hfin, hs⟩
    apply (unless_conclude hX hH hdebug hlinked hu hret hfin hs).imp
    rintro v (hv | hv)
    · exact .inl hv
    · refine .inr ⟨hv.returned, hv.eax, fun u' hu' hw hdf hret' => ?_⟩
      obtain ⟨c, E, p, hslept, hc, hcov, hholds, hp⟩ := hv.holds
      have hconst : amxConst u'.vars = amxConst u.vars := by
        rw [← hv.const]
        unfold amxConst
        rw [hw.amx, hw.hdr]
      have hbase : dataBase u'.vars = dataBase u.vars := by
        rw [← hv.returned.base]
        unfold dataBase
        rw [hw.amx, hw.hdr]
      have hsetting : setting env u' host = setting env u host := by
        unfold setting
        rw [hconst, hbase]
      apply ih hu' hret'
      rw [hsetting]
      apply (runs_wake (X := X) hu' hbase hc hcov hholds hw hp hdf).imp
      exact fun t ht => ⟨c, E, hslept, ht⟩

/-- the relation of a level: what calls of `Exec` in host functions come to -/
theorem level_steps (C : Machine → Prop) (n : Nat) : ∃ X, level env C n = Step env X ∧
    (∀ u v, Entry env u → X u v → Returned env u v) ∧ ∀ u v, X u v → v.vars.hdr = u.vars.hdr := by
  cases n with
  | zero => exact ⟨_, rfl, fun _ _ _ hf => hf.elim, fun _ _ hf => hf.elim⟩
  | succ n =>
    refine ⟨_, rfl, fun u v hu hx => level_returned C n u v hu hx.2, fun u v hx => ?_⟩
    obtain ⟨-, hr, -⟩ := hx
    induction hr with
    | refl => rfl
    | tail _ hst ih => exact (level_header C n _ _ hst).trans ih

/-- **The compiled code refines the abstract machine.**  If the public function, run by the abstract
machine, comes to its end with `post` after at most `n` sleeps, then every call of `Exec` that starts
it is served, at any depth of nested calls. -/
theorem public_function (env : Env) (C : Machine → Prop) (depth n : Nat) (host : Host) (post : Post)
    (hdebug : env.jit.compiler.debugFlags = 0) (hlinked : Linked env) (u : Machine)
    (hu : Entry env u) (hcheck : check u.vars.amx = none) (hno : ¬ Continues env u)
    (h0 : env.jit.entryAddress u ≠ 0) (hdf : u.flags.df = false)
    (hret : Disjoint (retCell u) env.amxMem)
    (h : ∀ pri alt, Finishes (setting env u host) post n (startConfig env u pri alt)
      (startStale env u)) : Served env (level env C depth) host post n u := by
  obtain ⟨X, hX, hreturns, hheader⟩ := @level_steps env C depth
  rw [hX]
  obtain ⟨i, hi⟩ := (h 0 0).decoded
  apply served_of_runs hreturns hheader hdebug hlinked hu hret
  apply (runs_start (X := X) hu hcheck hno h0 hdf ⟨i, hi⟩).imp
  rintro t ⟨pri, alt, ht⟩
  exact ⟨_, _, h pri alt, ht⟩

/-! ## an instance -/

/-- the AMX structure of the sample, with more room between the heap and the stack -/
def roomyAmx : Amx := { sampleProgram.amx with hea := -512, hlw := -512 }

/-- the call of the helper for direct calls -/
def callsNative : Item Cell Label → Bool
  | .instr (.call .sysreqDHelper) => true
  | _ => false

/-- natives that return 77 and change nothing else -/
def seventySeven : Host := fun _ _ q r => r = ⟨AMX_ERR_NONE, 77, q.hea, q.mem⟩

def main77 : Post := fun e a _ => e = AMX_ERR_NONE ∧ a.pri = 77

/-- the configurations of the sample: only CIP, PRI, ALT and the memory change -/
def sampleAt (cip pri alt : Word) (m : Mem) : Config where
  cip := cip
  st := ⟨pri, alt, 256, 248, -512, m⟩
  live := []

section
variable {cip pri alt : Word} {m : Mem} {E : Set Word} {slept : Config → Set Word → Prop}

/-- `main` of the sample -/
def sampleMain : Machine := sampleEntry AMX_EXEC_MAIN 0 roomyAmx

theorem sampleMain_base : dataBase sampleMain.vars = 0x18000 := by decide

theorem sample_mem {i : Instruction} (hi : i ∈ [(⟨8, .sysreqPri, []⟩ : Instruction),
    ⟨12, .halt, [12]⟩, ⟨20, .sysreqPri, []⟩, ⟨24, .halt, [0]⟩]) : i ∈ sampleEnv.jit.instrs := by
  show i ∈ sampleJit.instrs
  rw [sampleJit_instrs]
  simp only [List.mem_cons, List.not_mem_nil, or_false] at hi
  rcases hi with rfl | rfl | rfl | rfl <;> simp

theorem sampleAt_safe : (setting sampleEnv sampleMain seventySeven).Safe (sampleAt cip pri alt m) := by
  have hempty : cellsOf [] = ∅ := cellsOf_nil
  refine ⟨?_, ?_, ?_, ?_⟩
  · show sampleEnv.need ≤ (248 - -512 : Word).toNat
    decide
  · intro o ho
    have ho' : (o - -512).toNat < (248 - -512 : Word).toNat := ho
    rw [← add_sub_add 0x18000] at ho'
    show dataBase sampleMain.vars + o ∈ bytes 0x10000 0x10000
    rw [sampleMain_base]
    exact bytes_bytes (p := 0x18000 + -512) (n := (248 - -512 : Word).toNat) (by decide) ho'
  · show Disjoint (cellsOf []) _
    rw [hempty]
    exact Set.empty_disjoint _
  · show cellsOf [] ⊆ _
    rw [hempty]
    exact Set.empty_subset _

/-- a native call of the sample -/
theorem sampleAt_native {i : Instruction} (hi : i ∈ sampleEnv.jit.instrs) (hop : i.opcode = .sysreqPri)
    (hnext : (setting sampleEnv sampleMain seventySeven).Decoded i.next)
    (hon : ∀ m E, Concludes (setting sampleEnv sampleMain seventySeven) main77 slept
      (sampleAt i.next 77 alt m) E) :
    Concludes (setting sampleEnv sampleMain seventySeven) main77 slept
      (sampleAt i.address pri alt m) E := by
  have hanswer {q : Request} {r : Answer} (h : (setting sampleEnv sampleMain seventySeven).Exchange i
      (sampleAt i.address pri alt m) E q r) : r.error = AMX_ERR_NONE ∧ r.mem = q.mem ∧
        ∃ m', (sampleAt i.address pri alt m).answered i r = sampleAt i.next 77 alt m' := by
    obtain ⟨hq, hr⟩ := h
    cases (show r = ⟨AMX_ERR_NONE, 77, q.hea, q.mem⟩ from hr)
    refine ⟨rfl, rfl, ((sampleAt i.address pri alt m).answered i
      ⟨AMX_ERR_NONE, 77, q.hea, q.mem⟩).st.mem, ?_⟩
    show (⟨_, ⟨_, _, _, _, q.hea, _⟩, _⟩ : Config) = _
    rw [hq.hea]
    rfl
  refine .native ⟨hi, rfl⟩ (by rw [hop]; rfl) ?_ sampleAt_safe hnext ?_ ?_ ?_ ?_
  · unfold Instruction.intrinsic
    rw [hop]
  · intro q r h
    obtain ⟨-, hmem, m', hc⟩ := hanswer h
    rw [hc, hmem]
    exact ⟨sampleAt_safe, fun _ _ => rfl⟩
  · intro q r h _
    obtain ⟨-, -, m', hc⟩ := hanswer h
    rw [hc]
    exact hon m' _
  · intro q r h herr
    exact absurd (hanswer h).1 herr
  · intro q r h hsl
    have herr := (hanswer h).1.symm.trans hsl.2
    exact absurd herr (by decide)

/-- `main` of the sample calls a native, sleeps, calls a native again and ends with `HALT 0`. -/
theorem main77_finishes : Finishes (setting sampleEnv sampleMain seventySeven) main77 1
    (sampleAt 8 pri alt m) E := by
  have hend (m : Mem) (E : Set Word) : Finishes (setting sampleEnv sampleMain seventySeven) main77 0
      (sampleAt 20 77 alt m) E := by
    refine sampleAt_native (i := ⟨20, .sysreqPri, []⟩) (sample_mem (by simp)) rfl
      ⟨⟨24, .halt, [0]⟩, sample_mem (by simp), rfl⟩ fun m E => ?_
    exact .halt ⟨sample_mem (i := ⟨24, .halt, [0]⟩) (by simp), rfl⟩ rfl
      (fun h => absurd h.2 (by decide)) sampleAt_safe ⟨rfl, rfl⟩
  refine sampleAt_native (i := ⟨8, .sysreqPri, []⟩) (sample_mem (by simp)) rfl
    ⟨⟨12, .halt, [12]⟩, sample_mem (by simp), rfl⟩ fun m E => ?_
  refine .sleep (i := ⟨12, .halt, [12]⟩) ⟨sample_mem (by simp), rfl⟩ rfl ⟨rfl, rfl⟩ ?_ (hend m E)
  exact ⟨sampleAt_safe, ⟨20, .sysreqPri, []⟩, sample_mem (by simp), rfl, by simp⟩

end

theorem public_function_sample :
    Served sampleEnv (level sampleEnv (fun _ => True) 1) seventySeven main77 1 sampleMain := by
  have haddr : sampleEnv.jit.entryAddress sampleMain = 8 := by decide +kernel
  have hlinked : Linked sampleEnv := by
    intro i hi o hcode
    have hnone : sampleJit.instrs.all (fun i => ((compileInstr sleepCompiler sampleProgram i).getD
        []).all fun it => !callsNative it) = true := by decide +kernel
    have h := List.all_eq_true.mp hnone i hi
    have hcode' : compileInstr sleepCompiler sampleProgram i = some (requestCode .native o) := hcode
    rw [hcode'] at h
    exact absurd h (by simp [requestCode, asm, emit, callsNative, Callee.helper])
  refine public_function sampleEnv (fun _ => True) 1 1 seventySeven main77 rfl hlinked _
    (sampleEntry_entry (.inl rfl) rfl rfl rfl) (by decide) (fun h => absurd h.2 (by decide)) ?_ rfl
    ?_ fun pri alt => ?_
  · rw [haddr]
    decide
  · have hcell : sampleMain.mem.read32 0x180008 = 0 := read32_write32_self _ _ _
    unfold retCell
    rw [show sampleMain.esp + 8 = 0x180008 by decide, hcell, if_pos rfl]
    exact Set.empty_disjoint _
  · have hstart : startConfig sampleEnv sampleMain pri alt =
        sampleAt 8 pri alt (startConfig sampleEnv sampleMain pri alt).st.mem := by
      unfold startConfig
      rw [haddr]
      rfl
    rw [hstart]
    exact main77_finishes

end Env

end AmxJit
