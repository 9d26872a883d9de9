import AmxJit.Plugin.LifeCycle

/-!
# Engines

* `starts n h`       how often an engine has been started for the call `n`;
* `HandedOn n h`     the compiled code of the call has returned `AMX_ERR_INIT_JIT`;
* `Counted`          the invariant: one start for each call, and one more if it has been handed on;
* `one_engine_iff`   a call is run by one engine exactly if it has not.
-/

set_option linter.unusedSectionVars false

namespace AmxJit
open X86 Trans

namespace Event
variable {α β : Type}

/-- the number of the call that an event is about -/
def number : Event α β → Option Nat
  | .call n _ _ _ | .start n _ _ _ | .left n _ _ | .ran n _ _ | .ret n _ _ => some n
  | _ => none

def starts (n : Nat) : Event α β → Bool
  | .start m _ _ _ => m == n
  | _ => false

/-- an event that says nothing of the engines of the call `n` -/
structure Idle (n : Nat) (e : Event α β) : Prop where
  starts : e.starts n = false
  left : ∀ a, e ≠ .left n a AMX_ERR_INIT_JIT
  call : ∀ a i s, e ≠ .call n a i s

theorem idle_of_number {n : Nat} {e : Event α β} (h : e.number ≠ some n) : e.Idle n := by
  refine ⟨?_, ?_, ?_⟩
  · cases e with
    | start m a en s => exact beq_false_of_ne fun h0 => h (congrArg some h0)
    | _ => rfl
  · rintro a rfl
    exact h rfl
  · rintro a i s rfl
    exact h rfl

end Event

namespace World
variable {α β : Type} [DecidableEq α] {P : Plugin β} {c c' : World α β} {a : α} {index : Word}
  {h : List (Event α β)} {e : Event α β} {n k : Nat} {f g : Frame α β} {fs : List (Frame α β)}

def starts (n : Nat) (h : List (Event α β)) : Nat := h.countP (Event.starts n)

def HandedOn (n : Nat) (h : List (Event α β)) : Prop := ∃ a, .left n a AMX_ERR_INIT_JIT ∈ h

/-- `k` engines have been started -/
def Kept (h : List (Event α β)) (n k : Nat) : Prop := starts n h = k ∧ ¬ HandedOn n h

/-- and one more if the call has been handed on -/
def Count (h : List (Event α β)) (n k : Nat) : Prop :=
  Kept h n k ∨ starts n h = k + 1 ∧ HandedOn n h

/-- the call has returned because its AMX was browsed -/
def Browsed (P : Plugin β) (h : List (Event α β)) (n : Nat) : Prop :=
  Kept h n 0 ∧ ∀ a i s, .call n a i s ∈ h → P.browses s = true

/-- the engines that have been started for the call of a frame -/
def FrameCount (P : Plugin β) (h : List (Event α β)) : Frame α β → Prop
  | .compiling n _ _ _ => Kept h n 0
  | .entering n _ _ (.compiled _) => Kept h n 0
  | .entering n _ _ .interpreter => Count h n 0
  | .running n _ _ (.compiled _) _ => Kept h n 1
  | .running n _ _ .interpreter _ => Count h n 1
  | .returning n _ _ _ => Count h n 1 ∨ Browsed P h n

structure Counted (P : Plugin β) (h : List (Event α β)) (c : World α β) : Prop where
  number : ∀ e ∈ h, ∀ n, e.number = some n → n < c.calls
  frame : ∀ f ∈ c.stack, f.number < c.calls ∧ FrameCount P h f
  nodup : (c.stack.map Frame.number).Nodup
  rest : ∀ n a i s, .call n a i s ∈ h → n ∉ c.stack.map Frame.number →
    Count h n 1 ∨ Browsed P h n
  gone : ∀ n a error, .ret n a error ∈ h → n ∉ c.stack.map Frame.number

theorem starts_snoc : starts n (h ++ [e]) = starts n h + (if e.starts n then 1 else 0) := by
  unfold starts
  rw [List.countP_append]
  cases he : e.starts n <;> simp [he]

theorem handedOn_snoc : HandedOn n (h ++ [e]) ↔
    HandedOn n h ∨ ∃ a, e = .left n a AMX_ERR_INIT_JIT := by
  unfold HandedOn
  constructor
  · rintro ⟨a, ha⟩
    rcases List.mem_append.mp ha with ha | ha
    · exact .inl ⟨a, ha⟩
    · exact .inr ⟨a, (List.mem_singleton.mp ha).symm⟩
  · rintro (⟨a, ha⟩ | ⟨a, ha⟩)
    · exact ⟨a, List.mem_append_left _ ha⟩
    · exact ⟨a, by simp [ha]⟩

theorem kept_idle (he : e.Idle n) : Kept (h ++ [e]) n k ↔ Kept h n k := by
  unfold Kept
  rw [starts_snoc, handedOn_snoc, he.starts]
  refine and_congr Iff.rfl (not_congr (or_iff_left ?_))
  rintro ⟨a, h0⟩
  exact he.left a h0

theorem count_idle (he : e.Idle n) : Count (h ++ [e]) n k ↔ Count h n k := by
  unfold Count
  rw [kept_idle he, starts_snoc, handedOn_snoc, he.starts]
  refine or_congr Iff.rfl (and_congr Iff.rfl (or_iff_left ?_))
  rintro ⟨a, h0⟩
  exact he.left a h0

theorem browsed_idle (he : e.Idle n) : Browsed P (h ++ [e]) n ↔ Browsed P h n := by
  unfold Browsed
  rw [kept_idle he]
  have hcall (a : α) (i : Word) (s : AmxRef) :
      .call n a i s ∈ h ++ [e] ↔ .call n a i s ∈ h := by
    rw [List.mem_append, List.mem_singleton]
    exact or_iff_left fun h0 => he.call a i s h0.symm
  simp only [hcall]

theorem frameCount_idle (he : e.Idle f.number) : FrameCount P (h ++ [e]) f ↔ FrameCount P h f := by
  cases f with
  | compiling n a i p => exact kept_idle he
  | entering n a i en =>
    cases en with
    | compiled b => exact kept_idle he
    | interpreter => exact count_idle he
  | running n a i en s =>
    cases en with
    | compiled b => exact kept_idle he
    | interpreter => exact count_idle he
  | returning n a i error => exact or_congr (count_idle he) (browsed_idle he)

/-- the next frame of the call on top -/
theorem Counted.top (hC : Counted P h c) (hs : c.stack = f :: fs) (hs' : c'.stack = g :: fs)
    (hcalls : c'.calls = c.calls) (hfg : g.number = f.number)
    (he : e.number = none ∨ e.number = some f.number)
    (hcall : (∀ n a i s, e ≠ .call n a i s) ∧ ∀ n a error, e ≠ .ret n a error)
    (hg : FrameCount P (h ++ [e]) g) : Counted P (h ++ [e]) c' := by
  have hnum : c'.stack.map Frame.number = c.stack.map Frame.number := by
    rw [hs, hs', List.map_cons, List.map_cons, hfg]
  have hnodup := hC.nodup
  have hf := hC.frame f (by rw [hs]; exact List.mem_cons_self)
  rw [hs, List.map_cons, List.nodup_cons] at hnodup
  have hother {n : Nat} (hn : n ≠ f.number) : e.Idle n := by
    refine Event.idle_of_number ?_
    rcases he with he | he <;> rw [he]
    · simp
    · exact fun h0 => hn (Option.some.inj h0).symm
  refine ⟨?_, ?_, ?_, ?_, ?_⟩
  · intro d hd n hn
    rw [hcalls]
    rcases List.mem_append.mp hd with hd | hd
    · exact hC.number d hd n hn
    · rw [List.mem_singleton.mp hd] at hn
      rcases he with he | he
      · exact absurd (he.symm.trans hn) (by simp)
      · rw [← Option.some.inj (he.symm.trans hn)]
        exact hf.1
  · intro d hd
    rw [hs'] at hd
    rw [hcalls]
    rcases List.mem_cons.mp hd with rfl | hd
    · rw [hfg]
      exact ⟨hf.1, hg⟩
    · have hd' := hC.frame d (by rw [hs]; exact List.mem_cons_of_mem _ hd)
      refine ⟨hd'.1, (frameCount_idle (hother ?_)).mpr hd'.2⟩
      intro h0
      exact hnodup.1 (List.mem_map.mpr ⟨d, hd, h0⟩)
  · rw [hnum]
    exact hC.nodup
  · intro n a i s hm hn
    rw [hnum] at hn
    have hne : n ≠ f.number := by
      rintro rfl
      refine hn ?_
      rw [hs]
      exact List.mem_cons_self
    rcases List.mem_append.mp hm with hm | hm
    · rw [count_idle (hother hne), browsed_idle (hother hne)]
      exact hC.rest n a i s hm hn
    · exact absurd (List.mem_singleton.mp hm).symm (hcall.1 n a i s)
  · intro n a error hm
    rw [hnum]
    rcases List.mem_append.mp hm with hm | hm
    · exact hC.gone n a error hm
    · exact absurd (List.mem_singleton.mp hm).symm (hcall.2 n a error)

/-- the next phase of a compilation -/
theorem Counted.phase {p q : Phase} (hC : Counted P h c)
    (hs : c.stack = .compiling n a index p :: fs) :
    Counted P h { c with stack := .compiling n a index q :: fs } := by
  have hnum : (.compiling n a index q :: fs).map Frame.number = c.stack.map Frame.number := by
    rw [hs]
    rfl
  refine ⟨hC.number, ?_, by rw [hnum]; exact hC.nodup, ?_, by rw [hnum]; exact hC.gone⟩
  · intro d hd
    rcases List.mem_cons.mp hd with rfl | hd
    · exact hC.frame (.compiling n a index p) (by rw [hs]; exact List.mem_cons_self)
    · exact hC.frame d (by rw [hs]; exact List.mem_cons_of_mem _ hd)
  · intro m a i s hm hn
    rw [hnum] at hn
    exact hC.rest m a i s hm hn

/-- a new call -/
theorem Counted.push (f : Frame α β) {i : Word} {s : AmxRef} (hC : Counted P h c)
    (hn : f.number = c.calls)
    (hf : Kept (h ++ [.call c.calls a i s]) c.calls 0 →
      (∀ a' i' s', .call c.calls a' i' s' ∈ h ++ [.call c.calls a i s] → s' = s) →
      FrameCount P (h ++ [.call c.calls a i s]) f)
    (hs' : c'.stack = f :: c.stack) (hcalls : c'.calls = c.calls + 1) :
    Counted P (h ++ [.call c.calls a i s]) c' := by
  have hfresh {e : Event α β} (he : e ∈ h) : e.number ≠ some c.calls := by
    intro h0
    exact absurd (hC.number e he c.calls h0) (lt_irrefl _)
  have hkept : Kept h c.calls 0 := by
    refine ⟨List.countP_eq_zero.mpr fun e he => ?_, ?_⟩
    · rw [(Event.idle_of_number (hfresh he)).starts]
      simp
    · rintro ⟨a, ha⟩
      exact hfresh ha rfl
  have hkept' : Kept (h ++ [.call c.calls a i s]) c.calls 0 := by
    refine ⟨starts_snoc.trans hkept.1, ?_⟩
    rw [handedOn_snoc]
    rintro (h0 | ⟨a, h0⟩)
    · exact hkept.2 h0
    · cases h0
  have hframe : ∀ d ∈ c.stack, d.number ≠ c.calls := by
    intro d hd h0
    exact absurd (hC.frame d hd).1 (by rw [h0]; exact lt_irrefl _)
  refine ⟨?_, ?_, ?_, ?_, ?_⟩
  · intro d hd n hn
    rw [hcalls]
    rcases List.mem_append.mp hd with hd | hd
    · exact Nat.lt_succ_of_lt (hC.number d hd n hn)
    · rw [List.mem_singleton.mp hd] at hn
      cases hn
      exact Nat.lt_succ_self _
  · intro d hd
    rw [hs'] at hd
    rw [hcalls]
    rcases List.mem_cons.mp hd with rfl | hd
    · refine ⟨by rw [hn]; exact Nat.lt_succ_self _, hf hkept' ?_⟩
      intro a' i' s' hm
      rcases List.mem_append.mp hm with hm | hm
      · exact absurd rfl (hfresh hm)
      · cases List.mem_singleton.mp hm
        rfl
    · obtain ⟨h1, h2⟩ := hC.frame d hd
      refine ⟨Nat.lt_succ_of_lt h1, (frameCount_idle (Event.idle_of_number ?_)).mpr h2⟩
      exact fun h0 => hframe d hd (Option.some.inj h0).symm
  · rw [hs', List.map_cons, List.nodup_cons, hn]
    refine ⟨?_, hC.nodup⟩
    intro hm
    obtain ⟨d, hd, h0⟩ := List.mem_map.mp hm
    exact hframe d hd h0
  · intro n a' i' s' hm hnot
    rw [hs', List.map_cons, hn, List.mem_cons, not_or] at hnot
    have hne : (Event.call c.calls a i s : Event α β).Idle n :=
      Event.idle_of_number fun h0 => hnot.1 (Option.some.inj h0).symm
    rcases List.mem_append.mp hm with hm | hm
    · rw [count_idle hne, browsed_idle hne]
      exact hC.rest n a' i' s' hm hnot.2
    · cases List.mem_singleton.mp hm
      exact absurd rfl hnot.1
  · intro n a' error hm hmem
    rw [hs', List.map_cons, hn, List.mem_cons] at hmem
    rcases List.mem_append.mp hm with hm | hm
    · rcases hmem with rfl | hmem
      · exact hfresh hm rfl
      · exact hC.gone n a' error hm hmem
    · cases List.mem_singleton.mp hm

theorem Counted.called {i : Word} (hC : Counted P h c) (hcalled : Called P c a i c') :
    Counted P (h ++ [.call c.calls a i (c.amx a)]) c' := by
  cases hcalled with
  | browse hb =>
    refine hC.push (.returning c.calls a i AMX_ERR_NONE) rfl
      (fun hkept hcall => .inr ⟨hkept, fun a' i' s' hm => ?_⟩) rfl rfl
    rw [hcall a' i' s' hm]
    exact hb
  | create _ _ =>
    exact hC.push (.compiling c.calls a i .begin) rfl (fun hkept _ => hkept) rfl rfl
  | init _ _ =>
    exact hC.push (.compiling c.calls a i .begin) rfl (fun hkept _ => hkept) rfl rfl
  | @run hd en _ _ _ =>
    cases en with
    | compiled b =>
      exact hC.push (.entering c.calls a i (.compiled b)) rfl (fun hkept _ => hkept) rfl rfl
    | interpreter =>
      exact hC.push (.entering c.calls a i .interpreter) rfl (fun hkept _ => .inl hkept) rfl rfl

/-- the return of a call -/
theorem Counted.ret {error : Word} (retval : Word) (hC : Counted P h c)
    (hs : c.stack = .returning n a index error :: fs) :
    Counted P (h ++ [.ret n a error]) { c with stack := resume retval fs } := by
  have hnum : (resume retval fs).map Frame.number = fs.map Frame.number := by
    unfold resume
    split <;> rfl
  have hkeep : ∀ d ∈ resume retval fs, ∃ d' ∈ fs, d'.number = d.number ∧
      (FrameCount P h d' → FrameCount P h d) := by
    intro d hd
    unfold resume at hd
    split at hd
    · rcases List.mem_cons.mp hd with rfl | hd
      · exact ⟨_, List.mem_cons_self, rfl, id⟩
      · exact ⟨d, List.mem_cons_of_mem _ hd, rfl, id⟩
    · rcases List.mem_cons.mp hd with rfl | hd
      · exact ⟨_, List.mem_cons_self, rfl, id⟩
      · exact ⟨d, List.mem_cons_of_mem _ hd, rfl, id⟩
    · exact ⟨d, hd, rfl, id⟩
  have hnodup := hC.nodup
  obtain ⟨hlt, hcount⟩ := hC.frame (.returning n a index error) (by rw [hs]; exact List.mem_cons_self)
  rw [hs, List.map_cons, List.nodup_cons] at hnodup
  have hidle (m : Nat) : (Event.ret n a error : Event α β).Idle m :=
    ⟨rfl, by simp, by simp⟩
  refine ⟨?_, ?_, by rw [hnum]; exact hnodup.2, ?_, ?_⟩
  · intro d hd m hm
    rcases List.mem_append.mp hd with hd | hd
    · exact hC.number d hd m hm
    · rw [List.mem_singleton.mp hd] at hm
      cases hm
      exact hlt
  · intro d hd
    obtain ⟨d', hd', hnum', hcount'⟩ := hkeep d hd
    obtain ⟨h1, h2⟩ := hC.frame d' (by rw [hs]; exact List.mem_cons_of_mem _ hd')
    rw [← hnum', frameCount_idle (hidle _)]
    exact ⟨h1, hcount' h2⟩
  · intro m a' i s hm hnot
    rw [hnum] at hnot
    rw [count_idle (hidle m), browsed_idle (hidle m)]
    rcases List.mem_append.mp hm with hm | hm
    · by_cases hmn : m = n
      · rw [hmn]
        exact hcount
      · refine hC.rest m a' i s hm ?_
        rw [hs, List.map_cons, List.mem_cons, not_or]
        exact ⟨hmn, hnot⟩
    · cases List.mem_singleton.mp hm
  · intro m a' error' hm
    rw [hnum]
    rcases List.mem_append.mp hm with hm | hm
    · intro hmem
      refine hC.gone m a' error' hm ?_
      rw [hs, List.map_cons]
      exact List.mem_cons_of_mem _ hmem
    · cases List.mem_singleton.mp hm
      exact hnodup.1

theorem kept_start {en : Engine β} {s : AmxRef} (hk : Kept h n k) :
    Kept (h ++ [.start n a en s]) n (k + 1) := by
  have hstart : (Event.start n a en s).starts n = true := beq_self_eq_true n
  refine ⟨?_, ?_⟩
  · rw [starts_snoc, hstart, hk.1]
    rfl
  · rw [handedOn_snoc]
    rintro (h0 | ⟨a, h0⟩)
    · exact hk.2 h0
    · cases h0

theorem count_start {en : Engine β} {s : AmxRef} (hk : Count h n k) :
    Count (h ++ [.start n a en s]) n (k + 1) := by
  rcases hk with hk | ⟨hk, hh⟩
  · exact .inl (kept_start hk)
  · have hstart : (Event.start n a en s).starts n = true := beq_self_eq_true n
    refine .inr ⟨?_, handedOn_snoc.mpr (.inl hh)⟩
    rw [starts_snoc, hstart, hk]
    rfl

/-- the compiled code returns -/
theorem frameCount_left {error : Word} (hk : Kept h n 1) :
    FrameCount P (h ++ [.left n a error]) (afterExec n a index error : Frame α β) := by
  have hstarts : starts n (h ++ [.left n a error]) = 1 := starts_snoc.trans hk.1
  unfold afterExec
  by_cases herr : error = AMX_ERR_INIT_JIT
  · rw [if_pos herr]
    exact .inr ⟨hstarts, handedOn_snoc.mpr (.inr ⟨a, by rw [herr]⟩)⟩
  · rw [if_neg herr]
    refine .inl (.inl ⟨hstarts, ?_⟩)
    rw [handedOn_snoc]
    rintro (h0 | ⟨a, h0⟩)
    · exact hk.2 h0
    · cases h0
      exact herr rfl

theorem Counted.idle (hC : Counted P h c) (he : ∀ n, e.Idle n) (hnum : e.number = none)
    (hs' : c'.stack = c.stack) (hcalls : c'.calls = c.calls) : Counted P (h ++ [e]) c' := by
  refine ⟨?_, ?_, by rw [hs']; exact hC.nodup, ?_, ?_⟩
  · intro d hd n hn
    rw [hcalls]
    rcases List.mem_append.mp hd with hd | hd
    · exact hC.number d hd n hn
    · rw [List.mem_singleton.mp hd, hnum] at hn
      exact absurd hn (by simp)
  · intro d hd
    rw [hs'] at hd
    rw [hcalls, frameCount_idle (he _)]
    exact hC.frame d hd
  · intro n a i s hm hn
    rw [hs'] at hn
    rw [count_idle (he n), browsed_idle (he n)]
    rcases List.mem_append.mp hm with hm | hm
    · exact hC.rest n a i s hm hn
    · exact absurd (List.mem_singleton.mp hm).symm ((he n).call a i s)
  · intro n a error hm
    rw [hs']
    rcases List.mem_append.mp hm with hm | hm
    · exact hC.gone n a error hm
    · rw [← List.mem_singleton.mp hm] at hnum
      cases hnum

theorem Counted.step (hC : Counted P h c) (hstep : Step P c e c') : Counted P (h ++ [e]) c' := by
  have hidle {e : Event α β} (hnum : e.number = none) (n : Nat) : e.Idle n :=
    Event.idle_of_number (by rw [hnum]; simp)
  have htop {f : Frame α β} {fs : List (Frame α β)} (hs : c.stack = f :: fs) : FrameCount P h f :=
    (hC.frame f (by rw [hs]; exact List.mem_cons_self)).2
  cases hstep with
  | work amx _ => exact hC.idle (hidle rfl) rfl rfl rfl
  | call _ hc => exact hC.called (called_of_some hc)
  | unload a _ hno => exact hC.idle (hidle rfl) rfl rfl rfl
  | ask hs _ hc => exact (hC.phase (q := .asking) hs).called (called_of_some hc)
  | accept hs _ => exact (hC.phase (q := .answered 1) hs).idle (hidle rfl) rfl rfl rfl
  | disable hs => exact (hC.phase (q := .failed) hs).idle (hidle rfl) rfl rfl rfl
  | compile hs _ _ _ =>
    exact hC.top hs rfl rfl rfl (.inl rfl) ⟨by simp, by simp⟩ ((kept_idle (hidle rfl _)).mpr (htop hs))
  | reject hs _ _ =>
    exact hC.top hs rfl rfl rfl (.inl rfl) ⟨by simp, by simp⟩ ((kept_idle (hidle rfl _)).mpr (htop hs))
  | report hs _ hc => exact (hC.phase (q := .reporting) hs).called (called_of_some hc)
  | give hs _ => exact (hC.phase (q := .failed) hs).idle (hidle rfl) rfl rfl rfl
  | fail hs =>
    exact hC.top hs rfl rfl rfl (.inl rfl) ⟨by simp, by simp⟩ (.inl ((kept_idle (hidle rfl _)).mpr (htop hs)))
  | @start n a index en fs hs =>
    have hk := htop hs
    refine hC.top hs rfl rfl rfl (.inr rfl) ⟨by simp, by simp⟩ ?_
    cases en with
    | compiled b => exact kept_start hk
    | interpreter => exact count_start hk
  | @left n a index error b s fs hs _ =>
    have hnum : (afterExec n a index error : Frame α β).number = n := by
      unfold afterExec
      split <;> rfl
    exact hC.top hs rfl rfl hnum (.inr rfl) ⟨by simp, by simp⟩ (frameCount_left (htop hs))
  | refuse hs _ _ =>
    exact hC.top hs rfl rfl rfl (.inl rfl) ⟨by simp, by simp⟩ (.inl ((count_idle (hidle rfl _)).mpr (htop hs)))
  | @run n a index error s fs hs _ =>
    have hran : (Event.ran n a (caller fs) : Event α β).Idle n := ⟨rfl, by simp, by simp⟩
    exact hC.top hs rfl rfl rfl (.inr rfl) ⟨by simp, by simp⟩ (.inl ((count_idle hran).mpr (htop hs)))
  | ret retval hs => exact hC.ret retval hs

theorem frameCount_le (hf : FrameCount P h f) (hno : ¬ HandedOn f.number h) :
    starts f.number h ≤ 1 := by
  have hkept {m k : Nat} (hk : Kept h m k) (hle : k ≤ 1) : starts m h ≤ 1 := by
    rw [hk.1]
    exact hle
  have hcount {m k : Nat} (hk : Count h m k) (hle : k ≤ 1) (hno : ¬ HandedOn m h) :
      starts m h ≤ 1 := by
    rcases hk with hk | hk
    · exact hkept hk hle
    · exact absurd hk.2 hno
  cases f with
  | compiling n a i p => exact hkept hf (by decide)
  | entering n a i en =>
    cases en with
    | compiled b => exact hkept hf (by decide)
    | interpreter => exact hcount hf (by decide) hno
  | running n a i en s =>
    cases en with
    | compiled b => exact hkept hf (by decide)
    | interpreter => exact hcount hf (by decide) hno
  | returning n a i error =>
    rcases hf with hf | hf
    · exact hcount hf (by decide) hno
    · exact hkept hf.1 (by decide)

theorem Initial.counted (h0 : c.Initial) : Counted P [] c := by
  refine ⟨?_, ?_, ?_, ?_, ?_⟩
  · exact fun e he => absurd he (by simp)
  · intro f hf
    rw [h0.stack] at hf
    exact absurd hf (by simp)
  · rw [h0.stack]
    exact List.nodup_nil
  · exact fun n a i s hm => absurd hm (by simp)
  · exact fun n a error hm => absurd hm (by simp)

theorem run_counted {c₀ : World α β} (h0 : c₀.Initial) (hr : Run (Step P) c₀ h c) : Counted P h c :=
  hr.invariant h0.counted fun _ _ _ _ hC hstep => hC.step hstep

/-- **A call is run by one engine exactly if its compiled code has not returned
`AMX_ERR_INIT_JIT`**, in every run and however calls nest. -/
theorem one_engine_iff (P : Plugin β) (c₀ c : World α β) (h : List (Event α β)) (h0 : c₀.Initial)
    (hr : Run (Step P) c₀ h c) (n : Nat) (a : α) (index : Word) (s : AmxRef)
    (hcall : .call n a index s ∈ h) (hb : P.browses s = false) :
    (¬ HandedOn n h → starts n h ≤ 1) ∧
      ∀ error, .ret n a error ∈ h → (starts n h = 1 ↔ ¬ HandedOn n h) := by
  have hC := run_counted h0 hr
  have hnot : ¬ Browsed P h n := by
    rintro ⟨-, hbrowse⟩
    exact absurd ((hbrowse a index s hcall).symm.trans hb) (by simp)
  refine ⟨fun hno => ?_, fun error hret => ?_⟩
  · by_cases hn : n ∈ c.stack.map Frame.number
    · obtain ⟨f, hf, rfl⟩ := List.mem_map.mp hn
      exact frameCount_le (hC.frame f hf).2 hno
    · rcases hC.rest n a index s hcall hn with (hk | hk) | hk
      · exact hk.1.le
      · exact absurd hk.2 hno
      · exact absurd hk hnot
  · rcases hC.rest n a index s hcall (hC.gone n a error hret) with (hk | hk) | hk
    · exact ⟨fun _ => hk.2, fun _ => hk.1⟩
    · refine ⟨fun h1 => ?_, fun hno => absurd hk.2 hno⟩
      exact absurd (hk.1.symm.trans h1) (by decide)
    · exact absurd hk hnot

/-- The native that `main` calls returns 24: the compiled code has run `main`, and the interpreter runs
it again. -/
theorem one_engine_fails : ∃ (h : List (Event Unit Jit)) (c : World Unit Jit),
    Run (Step (samplePlugin none)) (sampleWorld sampleProgram) h c ∧
    .call 0 () AMX_EXEC_MAIN sampleProgram ∈ h ∧
    (samplePlugin none).browses sampleProgram = false ∧ .ret 0 () 0 ∈ h ∧
    .start 0 () (.compiled sampleJit) sampleProgram ∈ h ∧
    .start 0 () .interpreter sampleProgram ∈ h ∧ starts 0 h = 2 := by
  obtain ⟨c, hr, hs, -, hamx⟩ :=
    sample_run (@Env.sample_returns AMX_ERR_INIT_JIT (by decide) (by decide))
  have h1 := hr.snoc (.start hs)
  have h2 := h1.snoc (.work (fun _ => { sampleProgram with amx :=
    { sampleProgram.amx with
      stk := sampleProgram.amx.stk + 4 * sampleProgram.amx.paramcount, paramcount := 0 } })
    fun f fs h => by
      cases h
      trivial)
  rw [hamx] at h2
  have h3 := h2.snoc (@Step.run _ _ _ _ _ _ _ _ 0 _ _ rfl rfl)
  have h4 := h3.snoc (.ret 0 rfl)
  exact ⟨_, _, h4, by simp, rfl, by simp, by simp, by simp, rfl⟩

/-- The native returns another error. -/
theorem one_engine_sample : ∃ (h : List (Event Unit Jit)) (c : World Unit Jit),
    Run (Step (samplePlugin none)) (sampleWorld sampleProgram) h c ∧ .ret 0 () 5 ∈ h ∧
    starts 0 h = 1 := by
  obtain ⟨c, hr, hs, -, hamx⟩ :=
    sample_run (@Env.sample_returns 5 (by decide) (by decide))
  have h1 := hr.snoc (Step.ret 0 hs)
  have hret : Event.ret 0 () 5 ∈ [Event.call 0 () AMX_EXEC_MAIN sampleProgram, .silent,
      .compile () (some sampleJit), .start 0 () (.compiled sampleJit) sampleProgram,
      .left 0 () 5] ++ [.ret 0 () 5] := by simp
  refine ⟨_, _, h1, hret, ?_⟩
  refine ((one_engine_iff _ _ _ _ (sampleWorld_initial _) h1 0 () AMX_EXEC_MAIN sampleProgram
    (by simp) rfl).2 5 hret).mpr ?_
  rintro ⟨a, ha⟩
  have h24 : AMX_ERR_INIT_JIT = 5 := by simpa using ha
  exact absurd h24 (by decide)

end World

end AmxJit
