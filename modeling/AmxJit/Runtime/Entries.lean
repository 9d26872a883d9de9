import AmxJit.Compiler.Emitted
import AmxJit.Runtime.Existence

/-!
# Where compiled code is entered

* `Enters`              `Exec` returns an error, or control comes to the start of an instruction;
* `Exec` looks an address of the public table up in the instruction table, and calls what it finds
  (`enters_decoded`); of an address that is no instruction it calls the address 0 (`entered_zero`);
* `entries_decoded_iff` the static targets and the entries are starts of instructions exactly if the
  targets and the addresses in the public table are addresses of instructions.
-/

set_option linter.constructorNameAsVariable false

namespace AmxJit
open X86 Trans Reg

namespace Env
variable {env : Env} {X : Machine → Machine → Prop} {u t : Machine}

/-- what becomes of a call of `Exec` -/
inductive Enters (env : Env) (u t : Machine) : Prop where
  | rejected {error : Word} : check u.vars.amx = some error → Rejected env u error t → Enters env u t
  | notFound : check u.vars.amx = none → ¬ Continues env u → Rejected env u AMX_ERR_INDEX t →
      Enters env u t
  | started {p : Word} : env.jit.StartAt p → Started env u p t → Enters env u t
  | continued : Continues env u → Continued env u t → Enters env u t

/-- the entry of a call that is to start at a public function or `main` -/
def DecodedEntry (env : Env) (u : Machine) : Prop :=
  check u.vars.amx = none → ¬ Continues env u →
    env.jit.entryAddress u = 0 ∨ env.jit.Decoded (env.jit.entryAddress u)

theorem enters_decoded (hu : Entry env u) (hd : DecodedEntry env u) :
    Until (Step env X) env.Plain (Enters env u) u := by
  apply until_exec (env.drives X) hu
  · intro error t hc ht
    exact .now (.rejected hc ht)
  · intro hc hn _ t ht
    exact .now (.notFound hc hn ht)
  · intro hc hn h0 t ht
    obtain ⟨i, hi, ha⟩ := (hd hc hn).resolve_left h0
    rw [← ha] at ht
    exact .now (.started ⟨i, hi, lookup_decoded env.jit hi⟩ ht)
  · intro _ hc t ht
    exact .now (.continued hc ht)

/-- **An address in the middle of an instruction is called as the address 0.** -/
theorem entered_zero (hu : Entry env u) (hc : check u.vars.amx = none) (hn : ¬ Continues env u)
    (h0 : env.jit.entryAddress u ≠ 0) (hd : ¬ env.jit.Decoded (env.jit.entryAddress u)) :
    Until (Step env X) env.Plain (Started env u 0) u := by
  apply until_exec (env.drives X) hu
  · intro error t h _
    rw [hc] at h
    exact absurd h (by simp)
  · intro _ _ h
    exact absurd h h0
  · intro _ _ _ t ht
    rw [lookup_undecoded env.jit fun i hi ha => hd ⟨i, hi, ha⟩] at ht
    exact .now ht
  · intro _ h
    exact absurd h hn

/-- no function is there, and no instruction -/
theorem not_enters_zero (hu : Entry env u) (hn : ¬ Continues env u) (h0 : t.pc = 0) :
    ¬ Enters env u t := by
  have hscript {p : Word} (hp : env.jit.StartAt p) : p ≠ 0 := by
    obtain ⟨i, -, hnat⟩ := hp
    rintro rfl
    exact env.jit.not_inScript env.null.1 (env.jit.inScript_native hnat)
  intro h
  cases h with
  | rejected _ h => exact hu.ret_ne (h.pc.symm.trans h0)
  | notFound _ _ h => exact hu.ret_ne (h.pc.symm.trans h0)
  | started hp h => exact hscript hp (h.pc.symm.trans h0)
  | continued hc _ => exact hn hc

/-- neither an early return nor an instruction is in the runtime -/
theorem not_enters_plain (hu : Entry env u) (hn : ¬ Continues env u) (hp : env.Plain t) :
    ¬ Enters env u t := by
  have hret (hpc : t.pc = u.top) : env.HostPc t.pc := by
    rw [hpc]
    exact .inr (.inr hu.ret)
  intro h
  cases h with
  | rejected _ h => exact hp.host (hret h.pc)
  | notFound _ _ h => exact hp.host (hret h.pc)
  | started hstart h =>
    obtain ⟨i, -, hnat⟩ := hstart
    apply hp.script
    rw [h.pc]
    exact env.jit.inScript_native hnat
  | continued hc _ => exact hn hc

/-- From the address 0 there is no way to an instruction or back. -/
theorem not_must_enters (hu : Entry env u) (hd : ¬ DecodedEntry env u) :
    ¬ Must (Step env X) (Enters env u) u := by
  unfold DecodedEntry at hd
  push Not at hd
  obtain ⟨hc, hn, h0, hd⟩ := hd
  intro hmust
  have hzero := entered_zero (X := X) hu hc hn h0 hd
  obtain ⟨t, ht, hmust⟩ := hzero.meet hmust fun t hp => not_enters_plain hu hn hp
  cases hmust with
  | now h => exact not_enters_zero hu hn ht.pc h
  | next _ he _ =>
    obtain ⟨t', ht'⟩ := he
    refine no_step ?_ ht'
    rw [ht.pc]
    exact hostAddr_zero

/-- **Control comes to starts of instructions only, exactly if all targets and all entries are
addresses of instructions.** -/
theorem entries_decoded_iff (env : Env) (C : Machine → Prop) (n : Nat) :
    ((∀ a ∈ references env.jit.buffer.items, ∃ p, env.jit.native a = some p ∧ env.jit.StartAt p) ↔
      ∀ i ∈ env.jit.instrs, ∀ a ∈ i.targets env.jit.amx, env.jit.Decoded a) ∧
    ∀ u, Entry env u → (Must (level env C n) (Enters env u) u ↔ DecodedEntry env u) := by
  refine ⟨env.jit.references_decoded_iff, fun u hu => ?_⟩
  obtain ⟨X, hX, -⟩ := @level_calls env C n
  rw [hX]
  constructor
  · intro hmust
    by_contra hd
    exact not_must_enters hu hd hmust
  · intro hd
    exact (enters_decoded hu hd).mono (fun _ _ => trivial) fun _ h => h

/-- The public function 4 is in the middle of the first instruction: `Exec` calls the address 0. -/
theorem entry_undecoded :
    let u := sampleEntry 4 0 sampleProgram.amx
    Entry sampleEnv u ∧ sampleJit.amx.getPublicAddress 4 = 4 ∧ ¬ sampleJit.Decoded 4 ∧
      (∃ t, Relation.ReflTransGen (level sampleEnv (fun _ => True) 0) u t ∧
        Started sampleEnv u 0 t) ∧
      ¬ Must (level sampleEnv (fun _ => True) 0) (Enters sampleEnv u) u := by
  intro u
  have hu : Entry sampleEnv u := sampleEntry_entry (.inl rfl) rfl rfl rfl
  have haddr : sampleEnv.jit.entryAddress u = 4 := by decide +kernel
  have hn : ¬ Continues sampleEnv u := fun h => absurd h.2 (by decide)
  have hc : check u.vars.amx = none := by decide
  have hd : ¬ sampleJit.Decoded 4 := by
    unfold Jit.Decoded
    rw [sampleJit_instrs]
    simp
  have h0 : sampleEnv.jit.entryAddress u ≠ 0 := by
    rw [haddr]
    decide
  have hd' : ¬ sampleEnv.jit.Decoded (sampleEnv.jit.entryAddress u) := by
    rw [haddr]
    exact hd
  refine ⟨hu, by decide +kernel, hd, ?_, ?_⟩
  · exact (entered_zero hu hc hn h0 hd').run
  · apply not_must_enters hu
    intro h
    exact (h hc hn).elim h0 hd'

/-- the public function 32 -/
theorem entries_decoded_sample :
    let u := sampleEntry 2 0 sampleProgram.amx
    Must (level sampleEnv (fun _ => True) 0) (Enters sampleEnv u) u ∧ DecodedEntry sampleEnv u := by
  intro u
  have hu : Entry sampleEnv u := sampleEntry_entry (.inl rfl) rfl rfl rfl
  have haddr : sampleEnv.jit.entryAddress u = 32 := by decide +kernel
  have hd : DecodedEntry sampleEnv u := by
    intro _ _
    rw [haddr]
    refine .inr ⟨⟨32, .halt, [5]⟩, ?_, rfl⟩
    show _ ∈ sampleJit.instrs
    rw [sampleJit_instrs]
    simp
  exact ⟨((entries_decoded_iff sampleEnv (fun _ => True) 0).2 u hu).mpr hd, hd⟩

end Env

end AmxJit
