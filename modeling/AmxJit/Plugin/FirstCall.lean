import AmxJit.Plugin.Engines

/-!
# The first call

* `Plugin.Documented`  the interpreter consumes the parameters of the function that it runs;
* `Transparent s s'`   the function starts in the state `s'` as it would have in the state `s`;
* `Ran n h`            a callback of the compilation in the call `n` has been run;
* `Acts`               what a step does, by the call on top;
* `Now`, `Pending`     the AMX while it is being compiled;
* `first_call_iff`     the first call is transparent exactly if no parameter is pending or no callback
                       has been run.
-/

set_option linter.unusedSectionVars false

namespace AmxJit
open X86 Trans

/-- when the interpreter has run a function, `paramcount` is 0, and the parameters are off the stack -/
def Plugin.Documented {β : Type} (P : Plugin β) : Prop :=
  ∀ s t, P.runs s t → t.amx.paramcount = 0 ∧ t.amx.stk = s.amx.stk + 4 * s.amx.paramcount

/-- the address of a pushed argument -/
def AmxRef.argument (s : AmxRef) (k : Nat) : Word := s.data + s.amx.stk + BitVec.ofNat 32 (4 * k)

/-- the same stack pointer, and the same arguments -/
structure Transparent (s s' : AmxRef) : Prop where
  stk : s'.amx.stk = s.amx.stk
  paramcount : s'.amx.paramcount = s.amx.paramcount
  arguments : ∀ k < s.amx.paramcount.toNat,
    s'.mem.read32 (s.argument k) = s.mem.read32 (s.argument k)

theorem Plugin.construct_amx {β : Type} (P : Plugin β) (s : AmxRef) :
    (P.construct s).amx = s.amx := by
  unfold Plugin.construct
  split <;> rfl

namespace World
variable {α β : Type} [DecidableEq α] {P : Plugin β} {c c' : World α β} {a : α} {index : Word}
  {h : List (Event α β)} {e : Event α β} {n k : Nat} {f g : Frame α β} {fs gs : List (Frame α β)}
  {s x : AmxRef}

/-- a callback of the compilation in the call `n` has been run -/
def Ran (n : Nat) (h : List (Event α β)) : Prop := ∃ k a, .ran k a (some n) ∈ h

/-- the AMX between the callbacks of its compilation, which was called in the state `s` -/
def Now (P : Plugin β) (s : AmxRef) (n : Nat) (h : List (Event α β)) (x : AmxRef) : Prop :=
  ¬ Ran n h ∧ x = P.construct s ∨
    Ran n h ∧ x.amx.paramcount = 0 ∧ x.amx.stk = s.amx.stk + 4 * s.amx.paramcount

/-- The call of a callback that is not being run: `amx_Exec_JIT` has not begun, or has returned. -/
inductive Callback (a : α) : Frame α β → Prop where
  | entering (k : Nat) (i : Word) : Callback a (.entering k a i .interpreter)
  | returning (k : Nat) (i error : Word) : Callback a (.returning k a i error)

/-- The stack while the AMX `a` is being compiled in the call `n`, with the AMX in the state `x`. -/
inductive Pending (P : Plugin β) (s : AmxRef) (n : Nat) (a : α) (index : Word)
    (h : List (Event α β)) (x : AmxRef) : List (Frame α β) → Prop where
  | compiling (p : Phase) (fs : List (Frame α β)) : Now P s n h x →
      Pending P s n a index h x (.compiling n a index p :: fs)
  | callback {f : Frame α β} (p : Phase) (fs : List (Frame α β)) : Callback a f → Now P s n h x →
      Pending P s n a index h x (f :: .compiling n a index p :: fs)
  | running (gs : List (Frame α β)) (k : Nat) (i : Word) (t : AmxRef) (p : Phase)
      (fs : List (Frame α β)) : Now P s n h t → Pending P s n a index h x
        (gs ++ .running k a i .interpreter t :: .compiling n a index p :: fs)
  | entering (en : Engine β) (fs : List (Frame α β)) : Now P s n h x →
      Pending P s n a index h x (.entering n a index en :: fs)

theorem ran_snoc : Ran n (h ++ [e]) ↔ Ran n h ∨ ∃ k a, e = .ran k a (some n) := by
  unfold Ran
  constructor
  · rintro ⟨k, a, hm⟩
    rcases List.mem_append.mp hm with hm | hm
    · exact .inl ⟨k, a, hm⟩
    · exact .inr ⟨k, a, (List.mem_singleton.mp hm).symm⟩
  · rintro (⟨k, a, hm⟩ | ⟨k, a, rfl⟩)
    · exact ⟨k, a, List.mem_append_left _ hm⟩
    · exact ⟨k, a, by simp⟩

theorem Now.quiet (hN : Now P s n h x) (he : ∀ k a, e ≠ .ran k a (some n)) :
    Now P s n (h ++ [e]) x := by
  have hran : Ran n (h ++ [e]) ↔ Ran n h := by
    rw [ran_snoc]
    refine or_iff_left ?_
    rintro ⟨k, a, h0⟩
    exact he k a h0
  unfold Now
  rw [hran]
  exact hN

/-- a callback has been run -/
theorem Now.ran {t : AmxRef} (hP : P.Documented) (hN : Now P s n h t) (ht : P.runs t x) :
    Now P s n (h ++ [.ran k a (some n)]) x := by
  obtain ⟨hp, hstk⟩ := hP t x ht
  refine .inr ⟨ran_snoc.mpr (.inr ⟨k, a, rfl⟩), hp, ?_⟩
  rw [hstk]
  rcases hN with ⟨-, rfl⟩ | ⟨-, hp', hstk'⟩
  · rw [P.construct_amx]
  · rw [hstk', hp']
    simp

theorem Called.stack {i : Word} (hc : Called P c a i c') : ∃ f, c'.stack = f :: c.stack := by
  cases hc with
  | browse _ => exact ⟨_, rfl⟩
  | create _ _ => exact ⟨_, rfl⟩
  | init _ _ => exact ⟨_, rfl⟩
  | run _ _ _ => exact ⟨_, rfl⟩

/-- What a step does when the call `f` is on top of the calls `fs`: the code of the plugin goes on, or
the host takes its turn while an engine runs. -/
inductive Acts (P : Plugin β) (c : World α β) (fs : List (Frame α β)) :
    Frame α β → Event α β → World α β → Prop where
  | host {n : Nat} {a : α} {index : Word} {en : Engine β} {s : AmxRef} {e : Event α β}
      {c' : World α β} (gs : List (Frame α β)) :
      c'.stack = gs ++ .running n a index en s :: fs → (∀ k a m, e ≠ .ran k a m) →
      Acts P c fs (.running n a index en s) e c'
  | callback {n : Nat} {a : α} {index i : Word} {p : Phase} {c' : World α β} (q : Phase) :
      Called P { c with stack := .compiling n a index q :: fs } a i c' →
      Acts P c fs (.compiling n a index p) (.call c.calls a i (c.amx a)) c'
  | phase {n : Nat} {a : α} {index : Word} {p : Phase} {e : Event α β} {c' : World α β} (q : Phase) :
      c'.stack = .compiling n a index q :: fs → c'.amx = c.amx → (∀ k a m, e ≠ .ran k a m) →
      Acts P c fs (.compiling n a index p) e c'
  | settle {n : Nat} {a : α} {index : Word} {p : Phase} {e : Event α β} {c' : World α β}
      (en : Engine β) :
      c'.stack = .entering n a index en :: fs → c'.amx = c.amx → (∀ k a m, e ≠ .ran k a m) →
      Acts P c fs (.compiling n a index p) e c'
  | start {n : Nat} {a : α} {index : Word} {en : Engine β} :
      Acts P c fs (.entering n a index en) (.start n a en (c.amx a))
        { c with stack := .running n a index en (c.amx a) :: fs }
  | left {n : Nat} {a : α} {index error : Word} {b : β} {s : AmxRef} :
      Acts P c fs (.running n a index (.compiled b) s) (.left n a error)
        { c with stack := afterExec n a index error :: fs }
  | refuse {n : Nat} {a : α} {index error : Word} {s : AmxRef} : c.amx a = s →
      Acts P c fs (.running n a index .interpreter s) .silent
        { c with stack := .returning n a index error :: fs }
  | run {n : Nat} {a : α} {index error : Word} {s : AmxRef} : P.runs s (c.amx a) →
      Acts P c fs (.running n a index .interpreter s) (.ran n a (caller fs))
        { c with stack := .returning n a index error :: fs }
  | ret {n : Nat} {a : α} {index error : Word} (retval : Word) :
      Acts P c fs (.returning n a index error) (.ret n a error)
        { c with stack := resume retval fs }

/-- inversion by the call on top -/
theorem step_acts (hstep : Step P c e c') (hs : c.stack = f :: fs) : Acts P c fs f e c' := by
  have hrunning (ht : c.HostTurn) : ∃ n a i en s, f = .running n a i en s := by
    have hf : f.IsRunning := ht f fs hs
    cases f with
    | running n a i en s => exact ⟨n, a, i, en, s, rfl⟩
    | compiling => exact hf.elim
    | entering => exact hf.elim
    | returning => exact hf.elim
  cases hstep with
  | work amx ht =>
    obtain ⟨n, a, i, en, s, rfl⟩ := hrunning ht
    exact .host [] hs (by simp)
  | call ht hc =>
    obtain ⟨n, a, i, en, s, rfl⟩ := hrunning ht
    obtain ⟨g, hg⟩ := (called_of_some hc).stack
    exact .host [g] (by rw [hg, hs]; rfl) (by simp)
  | unload a ht _ =>
    obtain ⟨n, a, i, en, s, rfl⟩ := hrunning ht
    exact .host [] hs (by simp)
  | ask hs' _ hc =>
    cases hs.symm.trans hs'
    exact .callback .asking (called_of_some hc)
  | accept hs' _ =>
    cases hs.symm.trans hs'
    exact .phase (.answered 1) rfl rfl (by simp)
  | disable hs' =>
    cases hs.symm.trans hs'
    exact .phase .failed rfl rfl (by simp)
  | compile hs' _ _ _ =>
    cases hs.symm.trans hs'
    exact .settle (.compiled _) rfl rfl (by simp)
  | reject hs' _ _ =>
    cases hs.symm.trans hs'
    exact .phase .erring rfl rfl (by simp)
  | report hs' _ hc =>
    cases hs.symm.trans hs'
    exact .callback .reporting (called_of_some hc)
  | give hs' _ =>
    cases hs.symm.trans hs'
    exact .phase .failed rfl rfl (by simp)
  | fail hs' =>
    cases hs.symm.trans hs'
    exact .settle .interpreter rfl rfl (by simp)
  | start hs' =>
    cases hs.symm.trans hs'
    exact .start
  | left hs' _ =>
    cases hs.symm.trans hs'
    exact .left
  | refuse hs' _ hx =>
    cases hs.symm.trans hs'
    exact .refuse hx
  | run hs' hrun =>
    cases hs.symm.trans hs'
    exact .run hrun
  | ret retval hs' =>
    cases hs.symm.trans hs'
    exact .ret retval

/-- a step does not change the frames below the one on top, but for the next phase of a compilation -/
theorem Acts.stack (hA : Acts P c fs f e c') :
    ((∃ gs, c'.stack = gs ++ fs) ∨ ∃ r, c'.stack = resume r fs) ∧
      ∀ k a m, e = .ran k a m → m = caller fs := by
  cases hA with
  | host gs hgs he =>
    exact ⟨.inl ⟨gs ++ [_], by rw [hgs, List.append_assoc]; rfl⟩, fun k a m h => absurd h (he k a m)⟩
  | callback q hc =>
    obtain ⟨g, hg⟩ := hc.stack
    exact ⟨.inl ⟨[g, _], by rw [hg]; rfl⟩, by simp⟩
  | phase q hq _ he => exact ⟨.inl ⟨[_], hq⟩, fun k a m h => absurd h (he k a m)⟩
  | settle en hen _ he => exact ⟨.inl ⟨[_], hen⟩, fun k a m h => absurd h (he k a m)⟩
  | start => exact ⟨.inl ⟨[_], rfl⟩, by simp⟩
  | left => exact ⟨.inl ⟨[_], rfl⟩, by simp⟩
  | refuse _ => exact ⟨.inl ⟨[_], rfl⟩, by simp⟩
  | run _ =>
    refine ⟨.inl ⟨[_], rfl⟩, fun k a m h => ?_⟩
    cases h
    rfl
  | ret retval => exact ⟨.inr ⟨retval, rfl⟩, by simp⟩

/-- a call of a callback -/
theorem called_callback {i : Word} {p : Phase} (hN : Now P s n h (c.amx a))
    (hh : c.handlers a = some ⟨.compile, none⟩) (hs : c.stack = .compiling n a index p :: fs)
    (hc : Called P c a i c') :
    Pending P s n a index h (c'.amx a) c'.stack := by
  cases hc with
  | browse _ =>
    show Pending P s n a index h (c.amx a) (_ :: c.stack)
    rw [hs]
    exact .callback p fs (.returning _ _ _) hN
  | create _ h0 => exact absurd (h0.symm.trans hh) (by simp)
  | init _ h0 => exact absurd (h0.symm.trans hh) (by simp)
  | run _ h0 h1 =>
    cases h0.symm.trans hh
    cases h1
    show Pending P s n a index h (c.amx a) (_ :: c.stack)
    rw [hs]
    exact .callback p fs (.entering _ _) hN

theorem Pending.quiet {st : List (Frame α β)} (hJ : Pending P s n a index h x st)
    (he : ∀ k a, e ≠ .ran k a (some n)) : Pending P s n a index (h ++ [e]) x st := by
  cases hJ with
  | compiling p fs hN => exact .compiling p fs (hN.quiet he)
  | callback p fs hf hN => exact .callback p fs hf (hN.quiet he)
  | running gs k i t p fs hN => exact .running gs k i t p fs (hN.quiet he)
  | entering en fs hN => exact .entering en fs (hN.quiet he)

/-- the compilation is on top -/
theorem Acts.compiling {p : Phase} (hA : Acts P c fs (.compiling n a index p) e c')
    (hh : c.handlers a = some ⟨.compile, none⟩) (hN : Now P s n h (c.amx a)) :
    Pending P s n a index (h ++ [e]) (c'.amx a) c'.stack := by
  cases hA with
  | callback q hc =>
    refine (called_callback ?_ ?_ rfl hc).quiet (by simp)
    · exact hN
    · exact hh
  | phase q hq hamx he =>
    rw [hq, hamx]
    exact .compiling q fs (hN.quiet fun k a => he k a _)
  | settle en hen hamx he =>
    rw [hen, hamx]
    exact .entering en fs (hN.quiet fun k a => he k a _)

/-- the call of a callback is on top -/
theorem Acts.callee {p : Phase} (hA : Acts P c (.compiling n a index p :: fs) f e c')
    (hf : Callback a f) (hN : Now P s n h (c.amx a)) :
    Pending P s n a index (h ++ [e]) (c'.amx a) c'.stack := by
  cases hf with
  | entering k i =>
    cases hA with
    | start => exact .running [] k i _ p fs (hN.quiet (by simp))
  | returning k i error =>
    cases hA with
    | ret retval =>
      have hresume : ∃ q, resume retval (.compiling n a index p :: fs : List (Frame α β)) =
          .compiling n a index q :: fs := by
        cases p <;> exact ⟨_, rfl⟩
      obtain ⟨q, hq⟩ := hresume
      show Pending P s n a index _ (c.amx a) (resume retval _)
      rw [hq]
      exact .compiling q fs (hN.quiet (by simp))

/-- the callback is run -/
theorem Acts.running {i : Word} {t : AmxRef} {p : Phase} (hP : P.Documented)
    (hA : Acts P c (.compiling n a index p :: fs) (.running k a i .interpreter t) e c')
    (hN : Now P s n h t) : Pending P s n a index (h ++ [e]) (c'.amx a) c'.stack := by
  cases hA with
  | host gs hgs he =>
    rw [hgs]
    exact .running gs k i t p fs (hN.quiet fun k a => he k a _)
  | refuse hx =>
    refine .callback p fs (.returning _ _ _) ?_
    show Now P s n _ (c.amx a)
    rw [hx]
    exact hN.quiet (by simp)
  | run hrun => exact .callback p fs (.returning _ _ _) (hN.ran hP hrun)

/-- calls nest in the callback -/
theorem Acts.nested {i : Word} {t : AmxRef} {p : Phase}
    (hA : Acts P c (gs ++ .running k a i .interpreter t :: .compiling n a index p :: fs) g e c')
    (hs : c.stack = g :: (gs ++ .running k a i .interpreter t :: .compiling n a index p :: fs))
    (hnodup : (c.stack.map Frame.number).Nodup) (hN : Now P s n h t) :
    Pending P s n a index (h ++ [e]) (c'.amx a) c'.stack := by
  obtain ⟨hstack, hran⟩ := hA.stack
  have he : ∀ m a', e ≠ .ran m a' (some n) := by
    intro m a' h0
    have hcaller := hran m a' _ h0
    rw [hs, List.map_cons, List.nodup_cons, List.map_append, List.nodup_append] at hnodup
    cases gs with
    | nil => cases hcaller
    | cons f gs =>
      cases f with
      | compiling m' a'' i' q =>
        cases hcaller
        exact hnodup.2.2.2 n (by simp [Frame.number]) n (by simp [Frame.number]) rfl
      | entering => cases hcaller
      | running => cases hcaller
      | returning => cases hcaller
  rcases hstack with ⟨gs', hgs⟩ | ⟨r, hr⟩
  · rw [hgs, ← List.append_assoc]
    exact .running _ k i t p fs (hN.quiet he)
  · rw [hr]
    have hresume : ∃ gs', resume r (gs ++ .running k a i .interpreter t ::
        .compiling n a index p :: fs : List (Frame α β)) =
        gs' ++ .running k a i .interpreter t :: .compiling n a index p :: fs := by
      cases gs with
      | nil => exact ⟨[], rfl⟩
      | cons f gs =>
        cases f with
        | compiling m a' i' q => cases q <;> exact ⟨_ :: gs, rfl⟩
        | entering => exact ⟨_ :: gs, rfl⟩
        | running => exact ⟨_ :: gs, rfl⟩
        | returning => exact ⟨_ :: gs, rfl⟩
    obtain ⟨gs', hgs⟩ := hresume
    rw [hgs]
    exact .running _ k i t p fs (hN.quiet he)

theorem Pending.step {h' : List (Event α β)} (hP : P.Documented) (hI : Inv h' c) (hC : Counted P h' c)
    (hJ : Pending P s n a index h (c.amx a) c.stack) (hstep : Step P c e c')
    (hno : ∀ a en s', e ≠ .start n a en s') :
    Pending P s n a index (h ++ [e]) (c'.amx a) c'.stack := by
  generalize hs : c.stack = st at hJ
  cases hJ with
  | compiling p fs hN =>
    have hh := ((hI.own a).pending p (by
      unfold pending
      rw [hs]
      exact List.mem_cons_self)).1
    exact (step_acts hstep hs).compiling hh hN
  | callback p fs hf hN => exact (step_acts hstep hs).callee hf hN
  | running gs k i t p fs hN =>
    cases gs with
    | nil => exact (step_acts hstep hs).running hP hN
    | cons g gs => exact (step_acts hstep hs).nested hs hC.nodup hN
  | entering en fs hN =>
    cases step_acts hstep hs with
    | start => exact absurd rfl (hno _ _ _)

/-- a call that creates the handler -/
theorem pending_called (hc : Called P c a index c') (hh : c.handlers a = none)
    (hb : P.browses (c.amx a) = false) :
    Pending P (c.amx a) c.calls a index [] (c'.amx a) c'.stack := by
  have hnow : Now P (c.amx a) c.calls ([] : List (Event α β)) (P.construct (c.amx a)) := by
    refine .inl ⟨?_, rfl⟩
    rintro ⟨k, a, hm⟩
    exact absurd hm (by simp)
  cases hc with
  | browse h0 => exact absurd (h0.symm.trans hb) (by simp)
  | create _ _ =>
    have hself : Function.update c.amx a (P.construct (c.amx a)) a = P.construct (c.amx a) :=
      Function.update_self _ _ _
    refine .compiling .begin c.stack ?_
    show Now P (c.amx a) c.calls [] (Function.update c.amx a (P.construct (c.amx a)) a)
    rw [hself]
    exact hnow
  | init _ h0 => exact absurd (h0.symm.trans hh) (by simp)
  | run _ h0 _ => exact absurd (h0.symm.trans hh) (by simp)

/-- the AMX until the function starts -/
theorem pending_until {c₀ c₁ c₂ : World α β} {x y : List (Event α β)} (hP : P.Documented)
    (h0 : c₀.Initial) (hx : Run (Step P) c₀ x c₁) (hcall : Step P c₁ (.call n a index s) c₂)
    (hfirst : c₁.handlers a = none) (hb : P.browses s = false) (hy : Run (Step P) c₂ y c)
    (hnot : starts n y = 0) : Pending P s n a index y (c.amx a) c.stack := by
  have hx' := hx.snoc hcall
  induction hy with
  | nil =>
    cases hcall with
    | call _ hc => exact pending_called (called_of_some hc) hfirst hb
    | ask hs _ _ =>
      have hh := (((run_inv h0 hx).own a).pending .begin (by
        unfold pending
        rw [hs]
        exact List.mem_cons_self)).1
      exact absurd (hfirst.symm.trans hh) (by simp)
    | report hs _ _ =>
      have hh := (((run_inv h0 hx).own a).pending .erring (by
        unfold pending
        rw [hs]
        exact List.mem_cons_self)).1
      exact absurd (hfirst.symm.trans hh) (by simp)
  | @snoc y c c' e hy hstep ih =>
    have hall := hx'.append hy
    rw [starts_snoc] at hnot
    have hstart : e.starts n = false := by
      cases he : e.starts n with
      | false => rfl
      | true =>
        rw [he] at hnot
        exact absurd hnot (by simp)
    refine (ih (by omega)).step hP (run_inv h0 hall) (run_counted h0 hall) hstep ?_
    rintro a' en s' rfl
    exact absurd (hstart.symm.trans (beq_self_eq_true n)) (by simp)

/-- the function starts -/
theorem Pending.start {en : Engine β} {s' : AmxRef}
    (hJ : Pending P s n a index h (c.amx a) c.stack) (hnodup : (c.stack.map Frame.number).Nodup)
    (hstart : Step P c (.start n a en s') c') : Now P s n h s' := by
  cases hstart with
  | start hs =>
    rw [hs] at hJ hnodup
    rw [List.map_cons, List.nodup_cons] at hnodup
    generalize hst : (_ :: _ : List (Frame α β)) = st at hJ
    cases hJ with
    | compiling p fs hN => cases hst
    | callback p fs hf hN =>
      cases hst
      exact absurd List.mem_cons_self hnodup.1
    | running gs k i t p fs hN =>
      cases gs with
      | nil => cases hst
      | cons g gs =>
        cases hst
        exact absurd (by simp [Frame.number]) hnodup.1
    | entering en fs hN => exact hN

/-- **The first call of an AMX is transparent exactly if no parameter is pending or no callback has
been run**, and the variable `__JIT` is not in an argument. -/
theorem first_call_iff (P : Plugin β) (hP : P.Documented) (c₀ c₁ c₂ c₃ c₄ : World α β)
    (x y : List (Event α β)) (h0 : c₀.Initial) (hx : Run (Step P) c₀ x c₁) (n : Nat) (a : α)
    (index : Word) (s : AmxRef) (hcall : Step P c₁ (.call n a index s) c₂)
    (hfirst : c₁.handlers a = none) (hb : P.browses s = false) (hy : Run (Step P) c₂ y c₃)
    (hnot : starts n y = 0) (en : Engine β) (s' : AmxRef)
    (hstart : Step P c₃ (.start n a en s') c₄) :
    Transparent s s' ↔ (s.amx.paramcount = 0 ∨ ¬ Ran n y) ∧
      ∀ k < s.amx.paramcount.toNat,
        (P.construct s).mem.read32 (s.argument k) = s.mem.read32 (s.argument k) := by
  have hN : Now P s n y s' := by
    have hJ := pending_until hP h0 hx hcall hfirst hb hy hnot
    have hnodup := (run_counted h0 ((hx.snoc hcall).append hy)).nodup
    exact hJ.start hnodup hstart
  rcases hN with ⟨hran, rfl⟩ | ⟨hran, hp, hstk⟩
  · have hamx := P.construct_amx s
    constructor
    · exact fun ht => ⟨.inr hran, ht.arguments⟩
    · exact fun h => ⟨by rw [hamx], by rw [hamx], h.2⟩
  · constructor
    · intro ht
      have hp0 : s.amx.paramcount = 0 := ht.paramcount.symm.trans hp
      refine ⟨.inl hp0, ?_⟩
      rw [hp0]
      exact fun k hk => absurd hk (Nat.not_lt_zero k)
    · rintro ⟨hp0 | hno, -⟩
      · refine ⟨?_, hp.trans hp0.symm, ?_⟩
        · rw [hstk, hp0]
          simp
        · rw [hp0]
          exact fun k hk => absurd hk (Nat.not_lt_zero k)
      · exact absurd hran hno

/-! ## an instance -/

theorem samplePlugin_documented (o : Option Word) : (samplePlugin o).Documented := by
  rintro s t rfl
  exact ⟨rfl, rfl⟩

/-- the sample with `k` arguments pushed -/
def pushed (k : Word) : AmxRef :=
  { sampleProgram with amx := { sampleProgram.amx with stk := 256 - 4 * k, paramcount := k } }

theorem browses_pushed (o : Option Word) (k : Word) : (samplePlugin o).browses (pushed k) = false := by
  show (true && (AMX_FLAG_NTVREG &&& AMX_FLAG_BROWSE == AMX_FLAG_BROWSE)) = false
  decide

/-- the interpreter consumes them -/
theorem runs_pushed (o : Option Word) (k : Word) : (samplePlugin o).runs (pushed k) sampleProgram := by
  have hstk : (256 - 4 * k + 4 * k : Word) = 256 := BitVec.sub_add_cancel _ _
  show sampleProgram = { sampleProgram with amx := { sampleProgram.amx with
    stk := 256 - 4 * k + 4 * k, paramcount := 0 } }
  rw [hstk]
  rfl

/-- `main` is called, and `OnJITCompile` runs before the sample is compiled -/
theorem sample_asks (k : Word) : ∃ (c₂ c₃ c₄ : World Unit Jit) (y : List (Event Unit Jit)),
    Step (samplePlugin (some 1)) (sampleWorld (pushed k)) (.call 0 () AMX_EXEC_MAIN (pushed k)) c₂ ∧
    Run (Step (samplePlugin (some 1))) c₂ y c₃ ∧ starts 0 y = 0 ∧
    Step (samplePlugin (some 1)) c₃ (.start 0 () (.compiled sampleJit) sampleProgram) c₄ := by
  have hturn : (sampleWorld (pushed k)).HostTurn := fun f fs h => by cases h
  have hcall : Step (samplePlugin (some 1)) (sampleWorld (pushed k))
      (.call 0 () AMX_EXEC_MAIN (pushed k)) ⟨fun _ => pushed k, fun _ => some ⟨.compile, none⟩,
        [.compiling 0 () AMX_EXEC_MAIN .begin], 1⟩ := by
    refine .call hturn ?_
    have hb : (samplePlugin (some 1)).browses ((sampleWorld (pushed k)).amx ()) = false :=
      browses_pushed _ k
    unfold amxExecJit
    rw [hb]
    rfl
  have h1 : Run (Step (samplePlugin (some 1))) ⟨fun _ => pushed k, fun _ => some ⟨.compile, none⟩,
        [.compiling 0 () AMX_EXEC_MAIN .begin], 1⟩ [.call 1 () 1 (pushed k)]
      ⟨fun _ => pushed k, fun _ => some ⟨.compile, none⟩,
        [.entering 1 () 1 .interpreter, .compiling 0 () AMX_EXEC_MAIN .asking], 2⟩ := by
    refine .snoc .nil (.ask rfl rfl ?_)
    unfold amxExecJit
    dsimp only
    rw [browses_pushed]
    rfl
  have h2 := h1.snoc (.start rfl)
  have h3 := h2.snoc (.work (fun _ => sampleProgram) fun f fs h => by
    cases h
    trivial)
  have h4 := h3.snoc (@Step.run _ _ _ _ _ _ _ _ 0 _ _ rfl (runs_pushed (some 1) k))
  have h5 := h4.snoc (.ret 1 rfl)
  have h6 := h5.snoc (.compile (b := sampleJit) rfl (by decide) rfl (by
    intro a hd h0
    cases h0
    simp))
  exact ⟨_, _, _, _, hcall, h6, rfl, .start rfl⟩

/-- `main` is called with an argument: it starts without. -/
theorem first_call_fails : ∃ (c₂ c₃ c₄ : World Unit Jit) (y : List (Event Unit Jit)),
    (samplePlugin (some 1)).Documented ∧ (sampleWorld (pushed 1)).Initial ∧
    (samplePlugin (some 1)).browses (pushed 1) = false ∧
    Step (samplePlugin (some 1)) (sampleWorld (pushed 1)) (.call 0 () AMX_EXEC_MAIN (pushed 1)) c₂ ∧
    Run (Step (samplePlugin (some 1))) c₂ y c₃ ∧ starts 0 y = 0 ∧
    Step (samplePlugin (some 1)) c₃ (.start 0 () (.compiled sampleJit) sampleProgram) c₄ ∧
    ¬ Transparent (pushed 1) sampleProgram := by
  obtain ⟨c₂, c₃, c₄, y, hcall, hy, hnot, hstart⟩ := sample_asks 1
  refine ⟨c₂, c₃, c₄, y, samplePlugin_documented _, sampleWorld_initial _,
    browses_pushed _ 1, hcall, hy, hnot, hstart, ?_⟩
  intro ht
  exact absurd ht.paramcount (by decide)

/-- `__JIT` is the first cell of the data, and there is no `OnJITCompile`. -/
def markedPlugin : Plugin Jit :=
  { samplePlugin none with
    findPubVar := fun s name => if name = "__JIT" then some s.data else none }

/-- the sample with an argument, after `__JIT` has been set -/
def marked : AmxRef := markedPlugin.construct (pushed 1)

theorem marked_compiles : (compile sleepCompiler marked fun _ _ => 1).isSome = true := by
  decide +kernel

def markedJit : Jit := .load sleepCompiler marked 0x8000 marked_compiles (by decide +kernel)

/-- `main` is called with an argument, and starts with it. -/
theorem first_call_main : Transparent (pushed 1) marked := by
  have hturn : (sampleWorld (pushed 1)).HostTurn := fun f fs h => by cases h
  have hb : markedPlugin.browses (pushed 1) = false := browses_pushed none 1
  have hcall : Step markedPlugin (sampleWorld (pushed 1)) (.call 0 () AMX_EXEC_MAIN (pushed 1))
      ⟨fun _ => marked, fun _ => some ⟨.compile, none⟩, [.compiling 0 () AMX_EXEC_MAIN .begin], 1⟩ := by
    refine .call hturn ?_
    have hb' : markedPlugin.browses ((sampleWorld (pushed 1)).amx ()) = false := hb
    unfold amxExecJit
    rw [hb']
    rfl
  have h1 : Run (Step markedPlugin) ⟨fun _ => marked, fun _ => some ⟨.compile, none⟩,
        [.compiling 0 () AMX_EXEC_MAIN .begin], 1⟩ [.silent]
      ⟨fun _ => marked, fun _ => some ⟨.compile, none⟩,
        [.compiling 0 () AMX_EXEC_MAIN (.answered 1)], 1⟩ := .snoc .nil (.accept rfl rfl)
  have h2 := h1.snoc (.compile (b := markedJit) rfl (by decide) rfl (by
    intro a hd h0
    cases h0
    simp))
  have hno : ¬ Ran 0 ([.silent, .compile () (some markedJit)] : List (Event Unit Jit)) := by
    rintro ⟨k, a, hm⟩
    exact absurd hm (by simp)
  have hP : markedPlugin.Documented := samplePlugin_documented none
  refine (first_call_iff markedPlugin hP _ _ _ _ _ [] _ (sampleWorld_initial _) .nil 0 () AMX_EXEC_MAIN
    (pushed 1) hcall rfl hb h2 rfl (.compiled markedJit) marked (.start rfl)).mpr ⟨.inr hno, ?_⟩
  -- the argument is the last cell of the data
  have hsep : Sep (pushed 1).data ((pushed 1).argument 0) := by decide
  intro k hk
  have hk0 : k = 0 := Nat.lt_one_iff.mp hk
  rw [hk0]
  exact read32_write32_sep _ _ _ _ hsep

end World

end AmxJit
