import AmxJit.Plugin.Compiled

/-!
# The life cycle of handlers

* `Called`       what `amxExecJit` does;
* `Law`          when the compiler runs, and what an unload deletes;
* `Inv`          the invariant of the handlers, with the history of a run;
* `life_cycle`   every run: one compilation between unloads, every code buffer deleted once.
-/

set_option linter.unusedSectionVars false

namespace AmxJit
open X86 Trans

namespace World
variable {α β : Type} [DecidableEq α] {P : Plugin β} {c c' : World α β} {a : α} {index : Word}
  {h : List (Event α β)} {e : Event α β} {b : β}

/-- what `amxExecJit` does -/
inductive Called (P : Plugin β) (c : World α β) (a : α) (index : Word) : World α β → Prop where
  | browse : P.browses (c.amx a) = true →
      Called P c a index (c.push (.returning c.calls a index AMX_ERR_NONE))
  | create : P.browses (c.amx a) = false → c.handlers a = none →
      Called P c a index (({ c.setHandler a (some ⟨.compile, none⟩) with
        amx := Function.update c.amx a (P.construct (c.amx a)) } : World α β).push
          (.compiling c.calls a index .begin))
  | init {o : Option β} : P.browses (c.amx a) = false → c.handlers a = some ⟨.init, o⟩ →
      Called P c a index
        ((c.setHandler a (some ⟨.compile, o⟩)).push (.compiling c.calls a index .begin))
  | run {hd : JITHandler β} {en : Engine β} : P.browses (c.amx a) = false →
      c.handlers a = some hd → hd.exec = some (.run en) →
      Called P c a index (c.push (.entering c.calls a index en))

theorem called_of_some (hc : c.amxExecJit P a index = some c') : Called P c a index c' := by
  unfold amxExecJit at hc
  by_cases hb : P.browses (c.amx a) = true
  · rw [if_pos hb] at hc
    cases hc
    exact .browse hb
  · rw [if_neg hb] at hc
    have hb' : P.browses (c.amx a) = false := by simpa using hb
    cases hh : c.handlers a with
    | none =>
      unfold getHandler at hc
      simp only [hh, createHandler, JITHandler.exec, Option.map_some, Option.some.injEq] at hc
      rw [← hc]
      have hcreate : Called P c a index _ := .create hb' hh
      unfold setHandler at hcreate ⊢
      rw [Function.update_idem]
      exact hcreate
    | some hd =>
      unfold getHandler at hc
      simp only [hh] at hc
      obtain ⟨act, hact, hc⟩ := Option.map_eq_some_iff.mp hc
      cases act with
      | compile =>
        cases hc
        obtain ⟨st, o⟩ := hd
        cases st with
        | init => exact .init hb' hh
        | compileSucceded =>
          obtain ⟨b, -, hb⟩ := Option.map_eq_some_iff.mp hact
          cases hb
        | compile => cases hact
        | compileFailed => cases hact
      | run en =>
        cases hc
        exact .run hb' hh hact

end World

/-! ## the invariant -/

/-- the compilation that a frame is in -/
def Frame.pending {α β : Type} : Frame α β → Option (α × Phase)
  | .compiling _ a _ p => some (a, p)
  | _ => none

/-- The compiler has not been run yet. -/
def Phase.Early : Phase → Prop
  | .begin | .asking | .answered _ => True
  | _ => False

namespace Event
variable {α β : Type}

def Compiles (a : α) (e : Event α β) : Prop := ∃ r, e = .compile a r

def Unloads (a : α) (e : Event α β) : Prop := ∃ d, e = .unload a d

/-- the AMX whose handler an event settles -/
def settles : Event α β → Option α
  | .compile a _ | .fail a | .unload a _ => some a
  | _ => none

theorem not_compiles {a : α} {e : Event α β} (h : e.settles ≠ some a) : ¬ e.Compiles a := by
  rintro ⟨r, rfl⟩
  exact h rfl

theorem not_unloads {a : α} {e : Event α β} (h : e.settles ≠ some a) : ¬ e.Unloads a := by
  rintro ⟨d, rfl⟩
  exact h rfl

end Event

namespace World
variable {α β : Type} [DecidableEq α] {P : Plugin β} {c c' : World α β} {a : α} {index : Word}
  {h : List (Event α β)} {e : Event α β} {b : β}

def pending (c : World α β) : List (α × Phase) := c.stack.filterMap Frame.pending

/-- The compiler runs if it has not run since the last unload; an unload deletes the code buffer that
has been produced since the last one. -/
def Law (x : List (Event α β)) : Event α β → Prop
  | .compile a _ => ¬ Since (Event.Compiles a) (Event.Unloads a) x
  | .unload a d => ∀ b, d = some b ↔ Since (· = .compile a (some b)) (Event.Unloads a) x
  | _ => True

/-- the handler of one AMX, with the history -/
structure Own (h : List (Event α β)) (c : World α β) (a : α) : Prop where
  none : c.handlers a = none → ¬ Since (Event.Compiles a) (Event.Unloads a) h
  init : ∀ o, c.handlers a ≠ some ⟨.init, o⟩
  compile : ∀ o, c.handlers a = some ⟨.compile, o⟩ → ∃ p, (a, p) ∈ c.pending
  pending : ∀ p, (a, p) ∈ c.pending → c.handlers a = some ⟨.compile, Option.none⟩ ∧
    (p.Early → ¬ Since (Event.Compiles a) (Event.Unloads a) h)
  failed : Since (· = .fail a) (Event.Unloads a) h ↔ ∃ o, c.handlers a = some ⟨.compileFailed, o⟩
  code : ∀ b, Since (· = .compile a (some b)) (Event.Unloads a) h ↔
    ∃ hd, c.handlers a = some hd ∧ hd.code = some b
  state : ∀ hd, c.handlers a = some hd → (hd.code ≠ Option.none ↔ hd.state = .compileSucceded)

structure Inv (h : List (Event α β)) (c : World α β) : Prop where
  each : Each Law h
  own : ∀ a, Own h c a
  owner : ∀ a a' hd hd' b, c.handlers a = some hd → c.handlers a' = some hd' → hd.code = some b →
    hd'.code = some b → a = a'
  nodup : (c.pending.map Prod.fst).Nodup

/-- an event that does not settle the handler -/
theorem Own.quiet (hO : Own h c a) (he : e.settles ≠ some a) : Own (h ++ [e]) c a := by
  have hc := Event.not_compiles he
  have hu := Event.not_unloads he
  have hf : e ≠ .fail a := by
    rintro rfl
    exact he rfl
  refine ⟨?_, hO.init, hO.compile, ?_, ?_, ?_, hO.state⟩
  · rw [since_other hc hu]
    exact hO.none
  · rw [since_other hc hu]
    exact hO.pending
  · rw [since_other (p := (· = .fail a)) hf hu]
    exact hO.failed
  · intro b
    rw [since_other (p := (· = .compile a (some b))) (fun h => hc ⟨some b, h⟩) hu]
    exact hO.code b

/-- the same handler, in compilations none of which is earlier than before -/
theorem Own.frames (hO : Own h c a) (hh : c'.handlers a = c.handlers a)
    (hp : ∀ p, (a, p) ∈ c.pending → ∃ q, (a, q) ∈ c'.pending)
    (hp' : ∀ q, (a, q) ∈ c'.pending → ∃ p, (a, p) ∈ c.pending ∧ (q.Early → p.Early)) :
    Own h c' a := by
  refine ⟨?_, ?_, ?_, ?_, ?_, ?_, ?_⟩
  · rw [hh]
    exact hO.none
  · rw [hh]
    exact hO.init
  · intro o ha
    rw [hh] at ha
    obtain ⟨p, hm⟩ := hO.compile o ha
    exact hp p hm
  · intro q hm
    rw [hh]
    obtain ⟨p, hm', hqp⟩ := hp' q hm
    obtain ⟨h1, h2⟩ := hO.pending p hm'
    exact ⟨h1, fun h => h2 (hqp h)⟩
  · rw [hh]
    exact hO.failed
  · rw [hh]
    exact hO.code
  · rw [hh]
    exact hO.state

theorem Inv.quiet (hI : Inv h c) (he : e.settles = none) : Inv (h ++ [e]) c := by
  refine ⟨hI.each.snoc ?_, fun a => (hI.own a).quiet (by rw [he]; simp), hI.owner, hI.nodup⟩
  cases e with
  | compile a r => cases he
  | unload a d => cases he
  | _ => trivial

/-- other frames with the same compilations -/
theorem Inv.frames (hI : Inv h c) (hh : c'.handlers = c.handlers)
    (hp : List.Forall₂ (fun x y => x.1 = y.1 ∧ (y.2.Early → x.2.Early)) c.pending c'.pending) :
    Inv h c' := by
  have hfst : c.pending.map Prod.fst = c'.pending.map Prod.fst := by
    generalize c.pending = x at hp
    generalize c'.pending = y at hp
    induction hp with
    | nil => rfl
    | cons h _ ih => rw [List.map_cons, List.map_cons, h.1, ih]
  refine ⟨hI.each, fun a => (hI.own a).frames (by rw [hh]) ?_ ?_, by rw [hh]; exact hI.owner, ?_⟩
  · intro p hm
    have hm' : a ∈ c'.pending.map Prod.fst := by
      rw [← hfst]
      exact List.mem_map.mpr ⟨_, hm, rfl⟩
    obtain ⟨⟨a', q⟩, hq, rfl⟩ := List.mem_map.mp hm'
    exact ⟨q, hq⟩
  · intro q hm
    generalize c.pending = x at hp ⊢
    generalize c'.pending = y at hp hm
    induction hp with
    | nil => exact absurd hm (by simp)
    | @cons x y xs ys h _ ih =>
      rcases List.mem_cons.mp hm with rfl | hm
      · have hx : x.1 = a := h.1
        exact ⟨x.2, by rw [← hx]; simp, h.2⟩
      · obtain ⟨q', hq', hqp⟩ := ih hm
        exact ⟨q', List.mem_cons_of_mem _ hq', hqp⟩
  · rw [← hfst]
    exact hI.nodup

/-- no two handlers own a code buffer -/
theorem Inv.owner_set {o : Option (JITHandler β)} (hI : Inv h c)
    (ho : ∀ b hd, o = some hd → hd.code = some b → ∀ a' hd', c.handlers a' = some hd' →
      hd'.code ≠ some b) (a₁ a₂ : α) (h₁ h₂ : JITHandler β) (b : β)
    (ha₁ : Function.update c.handlers a o a₁ = some h₁)
    (ha₂ : Function.update c.handlers a o a₂ = some h₂) (hb₁ : h₁.code = some b)
    (hb₂ : h₂.code = some b) : a₁ = a₂ := by
  by_cases h1 : a₁ = a
  · by_cases h2 : a₂ = a
    · rw [h1, h2]
    · rw [h1, Function.update_self] at ha₁
      rw [Function.update_of_ne h2] at ha₂
      exact absurd hb₂ (ho b h₁ ha₁ hb₁ a₂ h₂ ha₂)
  · rw [Function.update_of_ne h1] at ha₁
    by_cases h2 : a₂ = a
    · rw [h2, Function.update_self] at ha₂
      exact absurd hb₁ (ho b h₂ ha₂ hb₂ a₁ h₁ ha₁)
    · rw [Function.update_of_ne h2] at ha₂
      exact hI.owner a₁ a₂ h₁ h₂ b ha₁ ha₂ hb₁ hb₂

theorem Inv.push {f : Frame α β} (hI : Inv h c) (hf : f.pending = none) : Inv h (c.push f) := by
  refine hI.frames rfl ?_
  have hp : (c.push f).pending = c.pending := by
    show (f :: c.stack).filterMap Frame.pending = _
    rw [List.filterMap_cons_none hf]
    rfl
  rw [hp]
  exact List.forall₂_same.mpr fun x _ => ⟨rfl, id⟩

/-- a call changes a handler only by starting its compilation -/
theorem Inv.called (hI : Inv h c) (hc : Called P c a index c') : Inv h c' := by
  cases hc with
  | browse _ => exact hI.push rfl
  | run _ _ _ => exact hI.push rfl
  | init _ hh => exact absurd hh ((hI.own a).init _)
  | create _ hh =>
    have hO := hI.own a
    have hnew : ∀ p, (a, p) ∉ c.pending := by
      intro p hm
      have h0 := (hO.pending p hm).1
      rw [hh] at h0
      exact absurd h0 (by simp)
    have hfresh : ∀ b hd, some (⟨.compile, none⟩ : JITHandler β) = some hd → hd.code = some b →
        ∀ a' hd', c.handlers a' = some hd' → hd'.code ≠ some b := by
      intro b hd h0 hb
      cases h0
      exact absurd hb (by simp)
    refine ⟨hI.each, fun a' => ?_, hI.owner_set hfresh, ?_⟩
    · by_cases hne : a' = a
      · subst hne
        have hself : Function.update c.handlers a' (some ⟨.compile, none⟩) a' =
            some ⟨.compile, none⟩ := Function.update_self _ _ _
        refine ⟨?_, ?_, ?_, ?_, ?_, ?_, ?_⟩
        · intro h0
          exact absurd (hself.symm.trans h0) (by simp)
        · intro o h0
          exact absurd (hself.symm.trans h0) (by simp)
        · exact fun _ _ => ⟨.begin, List.mem_cons_self⟩
        · exact fun _ _ => ⟨hself, fun _ => hO.none hh⟩
        · rw [hO.failed, hh]
          constructor
          · rintro ⟨o, h0⟩
            exact absurd h0 (by simp)
          · rintro ⟨o, h0⟩
            exact absurd (hself.symm.trans h0) (by simp)
        · intro b
          rw [hO.code, hh]
          constructor
          · rintro ⟨hd, h0, -⟩
            exact absurd h0 (by simp)
          · rintro ⟨hd, h0, hb⟩
            cases hself.symm.trans h0
            exact absurd hb (by simp)
        · intro hd h0
          cases hself.symm.trans h0
          exact ⟨fun h => absurd rfl h, fun h => absurd h (by simp)⟩
      · refine (hI.own a').frames (Function.update_of_ne hne _ _) ?_ ?_
        · exact fun p hm => ⟨p, List.mem_cons_of_mem _ hm⟩
        · intro q hm
          rcases List.mem_cons.mp hm with h0 | hm
          · cases h0
            exact absurd rfl hne
          · exact ⟨q, hm, id⟩
    · show ((a, Phase.begin) :: c.pending).map Prod.fst |>.Nodup
      rw [List.map_cons, List.nodup_cons]
      refine ⟨?_, hI.nodup⟩
      intro hm
      obtain ⟨⟨a', p⟩, hp, rfl⟩ := List.mem_map.mp hm
      exact hnew p hp

/-- another frame on top, in the same compilation or in none -/
theorem Inv.top {f g : Frame α β} {fs : List (Frame α β)} (hI : Inv h c) (hs : c.stack = f :: fs)
    (hfg : f.pending = none ∧ g.pending = none ∨
      ∃ a p q, f.pending = some (a, p) ∧ g.pending = some (a, q) ∧ (q.Early → p.Early)) :
    Inv h { c with stack := g :: fs } := by
  refine hI.frames rfl ?_
  unfold pending
  rw [hs]
  rcases hfg with ⟨hf, hg⟩ | ⟨a, p, q, hf, hg, hqp⟩
  · rw [List.filterMap_cons_none hf, List.filterMap_cons_none hg]
    exact List.forall₂_same.mpr fun x _ => ⟨rfl, id⟩
  · rw [List.filterMap_cons_some hf, List.filterMap_cons_some hg]
    exact .cons ⟨rfl, hqp⟩ (List.forall₂_same.mpr fun x _ => ⟨rfl, id⟩)

/-- the next phase of a compilation -/
theorem Inv.phase {n : Nat} {p : Phase} (q : Phase) {fs : List (Frame α β)} (hI : Inv h c)
    (hs : c.stack = .compiling n a index p :: fs) (hqp : q.Early → p.Early) :
    Inv h { c with stack := .compiling n a index q :: fs } :=
  hI.top hs (.inr ⟨a, p, q, rfl, rfl, hqp⟩)

theorem Inv.resume {f : Frame α β} {fs : List (Frame α β)} (retval : Word) (hI : Inv h c)
    (hs : c.stack = f :: fs) (hf : f.pending = none) :
    Inv h { c with stack := resume retval fs } := by
  refine hI.frames rfl ?_
  unfold pending
  rw [hs, List.filterMap_cons_none hf]
  have hsame (x : List (α × Phase)) :
      List.Forall₂ (fun x y => x.1 = y.1 ∧ (y.2.Early → x.2.Early)) x x :=
    List.forall₂_same.mpr fun x _ => ⟨rfl, id⟩
  unfold World.resume
  split
  · exact .cons ⟨rfl, id⟩ (hsame _)
  · exact .cons ⟨rfl, fun h => h.elim⟩ (hsame _)
  · exact hsame _

/-- a compilation ends: its handler is in a final state -/
theorem Inv.done {n : Nat} {p : Phase} {fs : List (Frame α β)} {hd : JITHandler β} {en : Engine β}
    (hI : Inv h c) (hs : c.stack = .compiling n a index p :: fs) (hlaw : Law h e)
    (he : e.settles = some a)
    (hfresh : ∀ b, hd.code = some b → ∀ a' hd', c.handlers a' = some hd' → hd'.code ≠ some b)
    (hst : hd.state ≠ .init ∧ hd.state ≠ .compile)
    (hfailed : Since (· = .fail a) (Event.Unloads a) (h ++ [e]) ↔ hd.state = .compileFailed)
    (hcode : ∀ b, Since (· = .compile a (some b)) (Event.Unloads a) (h ++ [e]) ↔ hd.code = some b)
    (hstate : hd.code ≠ none ↔ hd.state = .compileSucceded) :
    Inv (h ++ [e])
      { c.setHandler a (some hd) with stack := .entering n a index en :: fs } := by
  have hp : c.pending = (a, p) :: fs.filterMap Frame.pending := by
    unfold pending
    rw [hs]
    rfl
  have hnodup := hI.nodup
  rw [hp, List.map_cons, List.nodup_cons] at hnodup
  have hnone : ∀ q, (a, q) ∉ fs.filterMap Frame.pending := by
    intro q hm
    exact hnodup.1 (List.mem_map.mpr ⟨_, hm, rfl⟩)
  have hself : Function.update c.handlers a (some hd) a = some hd := Function.update_self _ _ _
  refine ⟨hI.each.snoc hlaw, fun a' => ?_, hI.owner_set ?_, hnodup.2⟩
  · by_cases hne : a' = a
    · subst hne
      refine ⟨?_, ?_, ?_, ?_, ?_, ?_, ?_⟩
      · intro h0
        exact absurd (hself.symm.trans h0) (by simp)
      · intro o h0
        cases hself.symm.trans h0
        exact absurd rfl hst.1
      · intro o h0
        cases hself.symm.trans h0
        exact absurd rfl hst.2
      · intro q hm
        exact absurd hm (hnone q)
      · rw [hfailed]
        constructor
        · intro h0
          obtain ⟨st, o⟩ := hd
          cases h0
          exact ⟨o, hself⟩
        · rintro ⟨o, h0⟩
          cases hself.symm.trans h0
          rfl
      · intro b
        rw [hcode]
        constructor
        · exact fun h0 => ⟨hd, hself, h0⟩
        · rintro ⟨hd', h0, hb⟩
          cases hself.symm.trans h0
          exact hb
      · intro hd' h0
        cases hself.symm.trans h0
        exact hstate
    · have hquiet : e.settles ≠ some a' := by
        rw [he]
        exact fun h0 => hne (Option.some.inj h0).symm
      refine ((hI.own a').quiet hquiet).frames (Function.update_of_ne hne _ _) ?_ ?_
      · intro q hm
        rw [hp] at hm
        rcases List.mem_cons.mp hm with h0 | hm
        · cases h0
          exact absurd rfl hne
        · exact ⟨q, hm⟩
      · intro q hm
        rw [hp]
        exact ⟨q, List.mem_cons_of_mem _ hm, id⟩
  · intro b hd' h0 hb
    cases h0
    exact hfresh b hb

theorem Inv.unload (hI : Inv h c) (hno : ∀ f ∈ c.stack, f.amx ≠ a) :
    Inv (h ++ [.unload a ((c.handlers a).bind JITHandler.deleted)]) (c.destroyHandler a) := by
  have hO := hI.own a
  have hnone : ∀ q, (a, q) ∉ c.pending := by
    intro q hm
    obtain ⟨f, hf, hfp⟩ := List.mem_filterMap.mp hm
    cases f with
    | compiling n a' index p =>
      cases hfp
      exact hno _ hf rfl
    | entering => cases hfp
    | running => cases hfp
    | returning => cases hfp
  have hself : Function.update c.handlers a none a = none := Function.update_self _ _ _
  have hcleared (p : Event α β → Prop) (hp : ∀ d, ¬ p (.unload a d)) (d : Option β) :
      ¬ Since p (Event.Unloads a) (h ++ [.unload a d]) := by
    rw [since_snoc]
    rintro (h0 | h0)
    · exact hp d h0
    · exact h0.2 ⟨d, rfl⟩
  have hcompiles : ∀ d, ¬ Event.Compiles a (.unload a d : Event α β) := fun d ⟨r, h0⟩ => by cases h0
  refine ⟨hI.each.snoc ?_, fun a' => ?_, hI.owner_set ?_, hI.nodup⟩
  · intro b
    rw [hO.code, Option.bind_eq_some_iff]
    constructor
    · rintro ⟨hd, hh, hdel⟩
      unfold JITHandler.deleted at hdel
      by_cases hst : hd.state = .compileSucceded
      · rw [if_pos hst] at hdel
        exact ⟨hd, hh, hdel⟩
      · rw [if_neg hst] at hdel
        exact absurd hdel (by simp)
    · rintro ⟨hd, hh, hb⟩
      have hst : hd.state = .compileSucceded := by
        rw [← hO.state hd hh, hb]
        simp
      refine ⟨hd, hh, ?_⟩
      unfold JITHandler.deleted
      rw [if_pos hst]
      exact hb
  · by_cases hne : a' = a
    · subst hne
      refine ⟨?_, ?_, ?_, ?_, ?_, ?_, ?_⟩
      · exact fun _ => hcleared _ hcompiles _
      · intro o h0
        exact absurd (hself.symm.trans h0) (by simp)
      · intro o h0
        exact absurd (hself.symm.trans h0) (by simp)
      · intro q hm
        exact absurd hm (hnone q)
      · refine iff_of_false (hcleared _ (fun d h0 => by cases h0) _) ?_
        rintro ⟨o, h0⟩
        exact absurd (hself.symm.trans h0) (by simp)
      · intro b
        refine iff_of_false (hcleared _ (fun d h0 => by cases h0) _) ?_
        rintro ⟨hd, h0, -⟩
        exact absurd (hself.symm.trans h0) (by simp)
      · intro hd h0
        exact absurd (hself.symm.trans h0) (by simp)
    · have hquiet : Event.settles (.unload a ((c.handlers a).bind JITHandler.deleted)) ≠ some a' :=
        fun h0 => hne (Option.some.inj h0).symm
      refine ((hI.own a').quiet hquiet).frames (Function.update_of_ne hne _ _) ?_ ?_
      · exact fun p hm => ⟨p, hm⟩
      · exact fun q hm => ⟨q, hm, id⟩
  · intro b hd h0
    exact absurd h0 (by simp)

/-- the compiler produces code -/
theorem Inv.compiled {n : Nat} {r : Word} {fs : List (Frame α β)} (hI : Inv h c)
    (hs : c.stack = .compiling n a index (.answered r) :: fs)
    (hfresh : ∀ a' hd, c.handlers a' = some hd → hd.code ≠ some b) :
    Inv (h ++ [.compile a (some b)])
      { c.setHandler a (some ⟨.compileSucceded, some b⟩) with
        stack := .entering n a index (.compiled b) :: fs } := by
  have hO := hI.own a
  obtain ⟨hh, hearly⟩ := hO.pending (.answered r) (by
    unfold pending
    rw [hs]
    exact List.mem_cons_self)
  have hunload (r : Option β) : ¬ Event.Unloads a (.compile a r) := fun ⟨d, h0⟩ => by cases h0
  refine hI.done hs (hearly trivial) rfl ?_ ⟨by simp, by simp⟩ ?_ ?_ (by simp)
  · intro b' hb a' hd hd'
    cases hb
    exact hfresh a' hd hd'
  · rw [since_other (p := (· = .fail a)) (by simp) (hunload _), hO.failed, hh]
    simp
  · intro b'
    rw [since_snoc, hO.code, hh]
    constructor
    · rintro (h0 | ⟨⟨hd, h0, hb⟩, -⟩)
      · cases h0
        rfl
      · cases h0
        exact absurd hb (by simp)
    · intro h0
      cases h0
      exact .inl rfl

/-- the handler of a failed compilation -/
theorem Inv.fails {n : Nat} {fs : List (Frame α β)} (hI : Inv h c)
    (hs : c.stack = .compiling n a index .failed :: fs) :
    Inv (h ++ [.fail a])
      { c.setHandler a (some ⟨.compileFailed, none⟩) with
        stack := .entering n a index .interpreter :: fs } := by
  have hO := hI.own a
  obtain ⟨hh, -⟩ := hO.pending .failed (by
    unfold pending
    rw [hs]
    exact List.mem_cons_self)
  have hunload : ¬ Event.Unloads a (.fail a : Event α β) := fun ⟨d, h0⟩ => by cases h0
  refine hI.done hs trivial rfl ?_ ⟨by simp, by simp⟩ ?_ ?_ (by simp)
  · intro b hb
    exact absurd hb (by simp)
  · rw [since_snoc]
    simp
  · intro b
    rw [since_other (p := (· = .compile a (some b))) (by simp) hunload, hO.code, hh]
    simp

/-- the compiler returns a null pointer -/
theorem Inv.rejected {n : Nat} {r : Word} {fs : List (Frame α β)} (hI : Inv h c)
    (hs : c.stack = .compiling n a index (.answered r) :: fs) :
    Inv (h ++ [.compile a none]) { c with stack := .compiling n a index .erring :: fs } := by
  have hp : c.pending = (a, .answered r) :: fs.filterMap Frame.pending := by
    unfold pending
    rw [hs]
    rfl
  have hnodup := hI.nodup
  rw [hp, List.map_cons, List.nodup_cons] at hnodup
  obtain ⟨hh, hearly⟩ := (hI.own a).pending (.answered r) (by
    rw [hp]
    exact List.mem_cons_self)
  have hI' := hI.phase .erring hs fun h => h.elim
  have hO := hI'.own a
  refine ⟨hI'.each.snoc (hearly trivial), fun a' => ?_, hI'.owner, hI'.nodup⟩
  by_cases hne : a' = a
  · subst hne
    have hunload : ¬ Event.Unloads a' (.compile a' none : Event α β) := fun ⟨d, h0⟩ => by cases h0
    refine ⟨?_, hO.init, hO.compile, ?_, ?_, ?_, hO.state⟩
    · intro h0
      exact absurd (hh.symm.trans h0) (by simp)
    · intro q hm
      refine ⟨hh, fun hq => ?_⟩
      rcases List.mem_cons.mp hm with h0 | hm
      · cases h0
        exact hq.elim
      · exact absurd (List.mem_map.mpr ⟨_, hm, rfl⟩) hnodup.1
    · rw [since_other (p := (· = .fail a')) (by simp) hunload]
      exact hO.failed
    · intro b
      rw [since_other (p := (· = .compile a' (some b))) (by simp) hunload]
      exact hO.code b
  · exact (hI'.own a').quiet fun h0 => hne (Option.some.inj h0).symm

theorem Inv.step (hI : Inv h c) (hstep : Step P c e c') : Inv (h ++ [e]) c' := by
  cases hstep with
  | work amx _ =>
    have hI' : Inv h { c with amx := amx } :=
      hI.frames rfl (List.forall₂_same.mpr fun x _ => ⟨rfl, id⟩)
    exact hI'.quiet rfl
  | call _ hc => exact (hI.called (called_of_some hc)).quiet rfl
  | unload a _ hno => exact hI.unload hno
  | ask hs _ hc =>
    exact ((hI.phase .asking hs fun _ => trivial).called (called_of_some hc)).quiet rfl
  | accept hs _ => exact (hI.phase (.answered 1) hs fun _ => trivial).quiet rfl
  | disable hs => exact (hI.phase .failed hs fun h => h.elim).quiet rfl
  | compile hs _ _ hfresh => exact hI.compiled hs hfresh
  | reject hs _ _ => exact hI.rejected hs
  | report hs _ hc =>
    exact ((hI.phase .reporting hs fun h => h.elim).called (called_of_some hc)).quiet rfl
  | give hs _ => exact (hI.phase .failed hs fun h => h.elim).quiet rfl
  | fail hs => exact hI.fails hs
  | start hs => exact (hI.top hs (.inl ⟨rfl, rfl⟩)).quiet rfl
  | @left n a index error b s fs hs _ =>
    have hafter : (afterExec n a index error : Frame α β).pending = none := by
      unfold afterExec
      split <;> rfl
    exact (hI.top hs (.inl ⟨rfl, hafter⟩)).quiet rfl
  | refuse hs _ _ => exact (hI.top hs (.inl ⟨rfl, rfl⟩)).quiet rfl
  | run hs _ => exact (hI.top hs (.inl ⟨rfl, rfl⟩)).quiet rfl
  | ret retval hs => exact (hI.resume retval hs rfl).quiet rfl

theorem Initial.inv (h0 : c.Initial) : Inv [] c := by
  have hp : c.pending = [] := by
    unfold pending
    rw [h0.stack]
    rfl
  refine ⟨each_nil, fun a => ⟨?_, ?_, ?_, ?_, ?_, ?_, ?_⟩, ?_, ?_⟩
  · exact fun _ => not_since_nil
  · intro o ha
    exact absurd ((h0.handlers a).symm.trans ha) (by simp)
  · intro o ha
    exact absurd ((h0.handlers a).symm.trans ha) (by simp)
  · intro p hm
    rw [hp] at hm
    exact absurd hm (by simp)
  · refine iff_of_false not_since_nil ?_
    rintro ⟨o, ha⟩
    exact absurd ((h0.handlers a).symm.trans ha) (by simp)
  · intro b
    refine iff_of_false not_since_nil ?_
    rintro ⟨hd, ha, -⟩
    exact absurd ((h0.handlers a).symm.trans ha) (by simp)
  · intro hd ha
    exact absurd ((h0.handlers a).symm.trans ha) (by simp)
  · intro a a' hd hd' b ha
    exact absurd ((h0.handlers a).symm.trans ha) (by simp)
  · rw [hp]
    exact List.nodup_nil

theorem run_inv {c₀ : World α β} (h0 : c₀.Initial) (hr : Run (Step P) c₀ h c) : Inv h c :=
  hr.invariant h0.inv fun _ _ _ _ hI hstep => hI.step hstep

/-! ## the life cycle -/

/-- a step on one AMX does not change the handler of another -/
theorem step_handlers (hstep : Step P c e c') (hne : e.amx ≠ some a) :
    c'.handlers a = c.handlers a := by
  have hcalled {d d' : World α β} {a' : α} {i : Word} (hc : d.amxExecJit P a' i = some d')
      (hd : d.handlers = c.handlers) (ha : a ≠ a') : d'.handlers a = c.handlers a := by
    rw [← hd]
    cases called_of_some hc with
    | browse _ => rfl
    | create _ _ => exact Function.update_of_ne ha _ _
    | init _ _ => exact Function.update_of_ne ha _ _
    | run _ _ _ => rfl
  have hother {a' : α} (h : some a' ≠ some a) : a ≠ a' := fun h0 => h (by rw [h0])
  cases hstep with
  | call _ hc => exact hcalled hc rfl (hother hne)
  | unload a' _ _ => exact Function.update_of_ne (hother hne) _ _
  | ask _ _ hc => exact hcalled hc rfl (hother hne)
  | compile _ _ _ _ => exact Function.update_of_ne (hother hne) _ _
  | report _ _ hc => exact hcalled hc rfl (hother hne)
  | fail _ => exact Function.update_of_ne (hother hne) _ _
  | _ => rfl

/-- a call while the AMX is being compiled, or after its compilation has failed -/
theorem Inv.interpreted {d : World α β} (hI : Inv h c)
    (hpending : (∃ p, (a, p) ∈ c.pending) ∨ Since (· = .fail a) (Event.Unloads a) h)
    (hc : d.amxExecJit P a index = some c') (hd : d.handlers = c.handlers)
    (hb : P.browses (d.amx a) = false) :
    c'.stack = .entering d.calls a index .interpreter :: d.stack := by
  have hstate : ∃ hd, d.handlers a = some hd ∧ hd.exec = some (.run .interpreter) := by
    rw [hd]
    rcases hpending with ⟨p, hp⟩ | hf
    · exact ⟨_, ((hI.own a).pending p hp).1, rfl⟩
    · obtain ⟨o, ho⟩ := (hI.own a).failed.mp hf
      exact ⟨_, ho, rfl⟩
  obtain ⟨hd', hh, hexec⟩ := hstate
  cases called_of_some hc with
  | browse h0 => exact absurd (h0.symm.trans hb) (by simp)
  | create _ h0 => exact absurd (h0.symm.trans hh) (by simp)
  | init _ h0 =>
    cases h0.symm.trans hh
    exact absurd hexec (by simp [JITHandler.exec])
  | run _ h0 h1 =>
    cases h0.symm.trans hh
    cases h1.symm.trans hexec
    rfl

/-- the handlers of a world that has been reached with the history `h` -/
structure LifeCycle (P : Plugin β) (h : List (Event α β)) (c : World α β) : Prop where
  /-- between two runs of the compiler the AMX has been unloaded -/
  once : ∀ x y z a r r', h = x ++ .compile a r :: (y ++ .compile a r' :: z) → ∃ d, .unload a d ∈ y
  code : ∀ a hd, c.handlers a = some hd → (hd.code ≠ none ↔ hd.state = .compileSucceded)
  /-- a call goes to the interpreter while the AMX is being compiled, and after a failure -/
  interpreted : ∀ n a index s c', Step P c (.call n a index s) c' → P.browses s = false →
    (∃ m i p, .compiling m a i p ∈ c.stack) ∨ Since (· = .fail a) (Event.Unloads a) h →
    ∃ fs, c'.stack = .entering n a index .interpreter :: fs
  /-- an unload deletes the code buffer that has been produced since the last one -/
  deleted : ∀ x z a d, h = x ++ .unload a d :: z →
    ∀ b, d = some b ↔ Since (· = .compile a (some b)) (Event.Unloads a) x
  /-- the code buffers that have not been deleted are those of the handlers -/
  owned : ∀ a b, Since (· = .compile a (some b)) (Event.Unloads a) h ↔
    ∃ hd, c.handlers a = some hd ∧ hd.code = some b
  owner : ∀ a a' hd hd' b, c.handlers a = some hd → c.handlers a' = some hd' → hd.code = some b →
    hd'.code = some b → a = a'
  frame : ∀ e c' a, Step P c e c' → e.amx ≠ some a → c'.handlers a = c.handlers a

/-- **Handlers live from the first call to the unload, and are compiled at most once.** -/
theorem life_cycle (P : Plugin β) (c₀ c : World α β) (h : List (Event α β)) (h0 : c₀.Initial)
    (hr : Run (Step P) c₀ h c) : LifeCycle P h c := by
  have hI := run_inv h0 hr
  refine ⟨?_, fun a => (hI.own a).state, ?_, ?_, fun a => (hI.own a).code, hI.owner,
    fun _ _ _ => step_handlers⟩
  · intro x y z a r r' heq
    by_contra hno
    have hlaw : ¬ Since (Event.Compiles a) (Event.Unloads a) (x ++ .compile a r :: y) :=
      hI.each (x ++ .compile a r :: y) (.compile a r') z (by rw [heq]; simp)
    refine hlaw ⟨x, _, y, rfl, ⟨r, rfl⟩, ?_⟩
    rintro d hd ⟨o, rfl⟩
    exact hno ⟨o, hd⟩
  · intro n a index s c' hstep hb hcase
    have hcase' : (∃ p, (a, p) ∈ c.pending) ∨ Since (· = .fail a) (Event.Unloads a) h := by
      refine hcase.imp_left ?_
      rintro ⟨m, i, p, hm⟩
      exact ⟨p, List.mem_filterMap.mpr ⟨_, hm, rfl⟩⟩
    cases hstep with
    | call _ hc =>
      have hstack := hI.interpreted hcase' hc rfl hb
      exact ⟨_, hstack⟩
    | ask _ _ hc =>
      have hstack := hI.interpreted hcase' hc rfl hb
      exact ⟨_, hstack⟩
    | report _ _ hc =>
      have hstack := hI.interpreted hcase' hc rfl hb
      exact ⟨_, hstack⟩
  · intro x z a d heq
    exact hI.each x (.unload a d) z heq

/-- The sample is compiled, run and unloaded. -/
theorem life_cycle_sample : ∃ (h : List (Event Unit Jit)) (c : World Unit Jit),
    Run (Step (samplePlugin none)) (sampleWorld sampleProgram) h c ∧
    .unload () (some sampleJit) ∈ h ∧ LifeCycle (samplePlugin none) h c := by
  obtain ⟨c, hr, hs, hh, -⟩ := sample_run (@Env.sample_returns 5 (by decide) (by decide))
  have hr1 := hr.snoc (Step.ret 0 hs)
  have hr2 := hr1.snoc (.unload () (fun f fs h => by cases h) (fun f hf => by cases hf))
  have hdel : (c.handlers ()).bind JITHandler.deleted = some sampleJit := by
    rw [hh]
    rfl
  refine ⟨_, _, hr2, ?_, life_cycle _ _ _ _ (sampleWorld_initial _) hr2⟩
  rw [hdel]
  simp

end World

end AmxJit
