import AmxJit.Runtime.Existence
import AmxJit.X86.Frame

/-!
# What the process never changes

* `until_df`       the runtime keeps the direction flag;
* `level_header`   the header of the AMX stays as it is, whatever the host does.
-/

namespace AmxJit
open X86 Trans

theorem runtimeItem_cells {i : Instr Cell Label} (h : runtimeItem (.instr i) = true) :
    ∀ c ∈ i.cells, c.isHdr = false := by
  intro c hc
  have hall : (i.cells.all fun c => !c.isHdr) = true := by
    cases i <;> first | exact h | rfl
  simpa using List.all_eq_true.mp hall c hc

/-- an instruction of the runtime stores to no field of the header -/
theorem runtimeItem_header {i : Instr Cell Label} (h : runtimeItem (.instr i) = true) :
    ∀ c ∈ i.cells, ∀ (w : Word) (v : Vars), Vars.hdr (Cells.set c w v) = Vars.hdr v := by
  intro c hc w v
  have hno := runtimeItem_cells h c hc
  cases c with
  | hdr f => exact absurd hno (by simp [Cell.isHdr])
  | _ => rfl

namespace Env
variable {env : Env} {X : Machine → Machine → Prop} {Q : Machine → Prop} {s t : Machine}

theorem plain_df (hs : env.Plain s) (h : Step env X s t) : t.flags.df = s.flags.df := by
  cases h with
  | runtime _ hstep => exact step_df hstep
  | script hin _ _ _ => exact absurd hin hs.script
  | cfun f _ hc => exact hc.df
  | callback hpc _ => exact absurd (.inl hpc) hs.host
  | native hn _ => exact absurd (.inr (.inl hn)) hs.host

theorem until_df (h : Until (Step env X) env.Plain Q s) :
    Until (Step env X) env.Plain (fun t => Q t ∧ t.flags.df = s.flags.df) s := by
  induction h with
  | now h => exact .now ⟨h, rfl⟩
  | next hp he _ ih =>
    refine .next hp he fun t ht => (ih t ht).imp fun v hv => ?_
    exact ⟨hv.1, hv.2.trans (plain_df hp ht)⟩

theorem hostRun_header {keep : Set Word} (hX : ∀ u v, X u v → v.vars.hdr = u.vars.hdr)
    (h : HostRun env X keep s t) : t.vars.hdr = s.vars.hdr := by
  induction h with
  | refl => rfl
  | work _ hw ih => exact hw.hdr.trans ih
  | exec _ _ _ _ hx ih => exact (hX _ _ hx).trans ih

theorem step_header (hX : ∀ u v, X u v → v.vars.hdr = u.vars.hdr) (h : Step env X s t) :
    t.vars.hdr = s.vars.hdr := by
  cases h with
  | runtime hf hstep =>
    have hitem := env.jit.fetch_runtime (env.jit.image.fetchBelow_fetch hf)
      (env.jit.runtimeFetch_lt hf)
    exact step_vars (runtimeItem_header hitem) (fun _ _ _ => rfl) hstep
  | script hin hf hstep _ =>
    obtain ⟨-, hq⟩ := step_quiet (env.jit.fetch_calm hin hf) hstep
    exact congrArg (fun q => q.2.1) hq
  | cfun f _ hc => rw [hc.vars]
  | callback _ hc => exact hostRun_header hX hc.run
  | native _ hc => exact hostRun_header hX hc.run

theorem reach_header (hX : ∀ u v, X u v → v.vars.hdr = u.vars.hdr)
    (h : Relation.ReflTransGen (Step env X) s t) : t.vars.hdr = s.vars.hdr := by
  induction h with
  | refl => rfl
  | tail _ hst ih => exact (step_header hX hst).trans ih

/-- **The header stays as it is**, at any depth of nesting. -/
theorem level_header (C : Machine → Prop) (n : Nat) :
    ∀ a b, level env C n a b → b.vars.hdr = a.vars.hdr := by
  induction n with
  | zero => exact fun a b h => step_header (fun _ _ hf => hf.elim) h
  | succ n ih =>
    refine fun a b h => step_header (fun u v hx => ?_) h
    obtain ⟨-, hr, -⟩ := hx
    induction hr with
    | refl => rfl
    | tail _ hst ih' => exact (ih _ _ hst).trans ih'

end Env

end AmxJit
